import FogFlow.Library.PartialDecode
import FogFlow.Ngsi.MetadataJson
import Mathlib.Algebra.Group.Int.Defs

namespace FogFlow.Ngsi

open Fields PartialDecode PartialDecode.Decoded

def omitString (key s : String) : List (String × Json) :=
  if s = "" then [] else [(key, .string s)]

def omitSlice (key : String) (items : List Json) : List (String × Json) :=
  if items.isEmpty then [] else [(key, .array items)]

def EntityId.toJson (eid : EntityId) : Json :=
  .object (omitString "type" eid.type ++
    (if eid.isPattern then [("isPattern", .bool true)] else []) ++ omitString "id" eid.id)

def ContextAttribute.toJson (rawMessage : String → Json) (attr : ContextAttribute) : Json :=
  .object ([("name", .string attr.name)] ++ omitString "type" attr.type ++
    [("value", marshal rawMessage attr.value)] ++
    omitSlice "metadata" (attr.metadata.map (fun m => m.toJson rawMessage)))

def decodeBool (old : Bool) : Json → Option Bool
  | .bool b => some b
  | .null => some old
  | _ => none

def isInt64 (q : ℚ) : Bool := q.den == 1 && decide (-2 ^ 63 ≤ q.num) && decide (q.num < 2 ^ 63)

def decodeInt (old : Int) : Json → Option Int
  | .number q => if isInt64 q then some q.num else none
  | .null => some old
  | _ => none

def decodeObject {σ : Type} (member : σ → String × Json → Decoded σ) (old : σ) :
    Json → Decoded σ
  | .object ms => members member old ms
  | .null => done old
  | _ => mismatch old

def decodeSlice {α : Type} (decode : Json → Decoded α) (old : List α) : Json → Decoded (List α)
  | .array js => items decode js
  | .null => done []
  | _ => mismatch old

def entityIdMember (eid : EntityId) (m : String × Json) : Decoded EntityId :=
  match foldName m.1 with
  | "TYPE" => (ofOption eid.type (decodeString eid.type m.2)).map (fun s => { eid with type := s })
  | "ISPATTERN" => (ofOption eid.isPattern (decodeBool eid.isPattern m.2)).map
      (fun b => { eid with isPattern := b })
  | "ID" => (ofOption eid.id (decodeString eid.id m.2)).map (fun s => { eid with id := s })
  | _ => done eid

-- UnmarshalJSON of a metadata, which writes its target before mapstructure can fail
def decodeMetadata (mapstructure : MapDecode) (j : Json) : Decoded ContextMetadata :=
  match decodeInternal j with
  | none => stop .zero
  | some m =>
      match ContextMetadata.unmarshalJSON mapstructure m with
      | some metadata => done metadata
      | none => stop { m with value := .null }

-- the internal attribute structs differ in the Go type of the value
structure AttributeObject (ν : Type) where
  name : String
  type : String
  value : ν
  metadata : List ContextMetadata

def attributeMember {ν : Type} (mapstructure : MapDecode) (decodeValue : ν → Json → Decoded ν)
    (attr : AttributeObject ν) (m : String × Json) : Decoded (AttributeObject ν) :=
  match foldName m.1 with
  | "NAME" => (ofOption attr.name (decodeString attr.name m.2)).map
      (fun s => { attr with name := s })
  | "TYPE" => (ofOption attr.type (decodeString attr.type m.2)).map
      (fun s => { attr with type := s })
  | "VALUE" => (decodeValue attr.value m.2).map (fun v => { attr with value := v })
  | "METADATA" => (decodeSlice (decodeMetadata mapstructure) attr.metadata m.2).map
      (fun ms => { attr with metadata := ms })
  | _ => done attr

-- json.RawMessage
def rawValue (_ : Option Json) (j : Json) : Decoded (Option Json) := done (some j)

-- a slice of interface values, which null sets to nil
def sliceValue (old : Option (List Value)) : Json → Decoded (Option (List Value))
  | .array js => done (some (unmarshalItems js))
  | .null => done none
  | _ => mismatch old

-- the nil map that an object of value null becomes is written and compared like nil
def typedValue (text : Json → String) (type : String) (value : Option Json) : Value :=
  match type with
  | "integer" =>
      match value with
      | some (.number q) => if isInt64 q then .number q else .number 0
      | _ => .number 0
  | "float" =>
      match value with
      | some (.number q) => .number q
      | _ => .number 0
  | "boolean" =>
      match value with
      | some (.bool b) => .bool b
      | _ => .bool false
  | "string" =>
      match value with
      | some (.string s) => .string s
      | _ => .string ""
  | "object" =>
      match value with
      | some (.object ms) => unmarshal (.object ms)
      | _ => .null
  | _ => .raw ((value.map text).getD "")

def ContextAttribute.zero : ContextAttribute := ⟨"", "", .null, []⟩

-- UnmarshalJSON of an attribute, whose own error leaves its target as it was
def decodeAttribute (text : Json → String) (mapstructure : MapDecode) (j : Json) :
    Decoded ContextAttribute :=
  let attr := decodeObject (attributeMember mapstructure rawValue) ⟨"", "", none, []⟩ j
  if attr.failed then stop .zero
  else done ⟨attr.value.name, attr.value.type,
    typedValue text attr.value.type attr.value.value, attr.value.metadata⟩

def decodeInternalAttribute (mapstructure : MapDecode) (j : Json) :
    Decoded (AttributeObject (Option (List Value))) :=
  decodeObject (attributeMember mapstructure sliceValue) ⟨"", "", none, []⟩ j

variable {rawMessage : String → Json} {text : Json → String} {mapstructure : MapDecode}

theorem decodeMetadata_of_ofJson {j : Json} {m : ContextMetadata}
    (h : ContextMetadata.ofJson mapstructure j = some m) :
    decodeMetadata mapstructure j = done m := by
  obtain ⟨internal, hinternal, hm⟩ := Option.bind_eq_some_iff.mp h
  rw [decodeMetadata, hinternal]
  dsimp only
  rw [hm]

theorem decodeEntityId_toJson (eid : EntityId) :
    decodeObject entityIdMember ⟨"", false, ""⟩ eid.toJson = done eid := by
  obtain ⟨type, isPattern, id⟩ := eid
  have htype : foldName "type" = "TYPE" := by decide
  have hisPattern : foldName "isPattern" = "ISPATTERN" := by decide
  have hid : foldName "id" = "ID" := by decide
  have htypeMember (old : EntityId) (s : String) :
      entityIdMember old ("type", .string s) = done { old with type := s } := by
    simp [entityIdMember, htype, decodeString]
  have hpatternMember (old : EntityId) :
      entityIdMember old ("isPattern", .bool true) = done { old with isPattern := true } := by
    simp [entityIdMember, hisPattern, decodeBool]
  have hidMember (old : EntityId) (s : String) :
      entityIdMember old ("id", .string s) = done { old with id := s } := by
    simp [entityIdMember, hid, decodeString]
  simp only [EntityId.toJson, omitString, decodeObject]
  split_ifs <;>
    simp_all [members_cons_of_done (htypeMember _ _), members_cons_of_done (hpatternMember _),
      members_cons_of_done (hidMember _ _)]

-- what a metadata is after it has been written and decoded once
def ContextMetadata.sent (rawMessage : String → Json) (mapstructure : MapDecode)
    (m : ContextMetadata) : ContextMetadata :=
  (ContextMetadata.ofJson mapstructure (m.toJson rawMessage)).getD m

def ContextMetadata.Sendable (rawMessage : String → Json) (mapstructure : MapDecode)
    (m : ContextMetadata) : Prop :=
  (ContextMetadata.ofJson mapstructure (m.toJson rawMessage)).isSome

theorem decodeMetadata_toJson {m : ContextMetadata} (h : m.Sendable rawMessage mapstructure) :
    decodeMetadata mapstructure (m.toJson rawMessage) = done (m.sent rawMessage mapstructure) := by
  obtain ⟨m', hm'⟩ := Option.isSome_iff_exists.mp h
  rw [decodeMetadata_of_ofJson hm', ContextMetadata.sent, hm', Option.getD_some]

section Attribute

variable {ν : Type} {decodeValue : ν → Json → Decoded ν} {attr : ContextAttribute}

theorem attributeMember_name (old : AttributeObject ν) (s : String) :
    attributeMember mapstructure decodeValue old ("name", .string s) =
      done { old with name := s } := by
  have hname : foldName "name" = "NAME" := by decide
  simp [attributeMember, hname, decodeString]

theorem attributeMember_type (old : AttributeObject ν) (s : String) :
    attributeMember mapstructure decodeValue old ("type", .string s) =
      done { old with type := s } := by
  have htype : foldName "type" = "TYPE" := by decide
  simp [attributeMember, htype, decodeString]

theorem attributeMember_value (old : AttributeObject ν) (j : Json) :
    attributeMember mapstructure decodeValue old ("value", j) =
      (decodeValue old.value j).map (fun v => { old with value := v }) := by
  have hvalue : foldName "value" = "VALUE" := by decide
  simp [attributeMember, hvalue]

theorem attributeMember_metadata (old : AttributeObject ν) {ms : List ContextMetadata}
    (h : ∀ m ∈ ms, m.Sendable rawMessage mapstructure) :
    attributeMember mapstructure decodeValue old
        ("metadata", .array (ms.map (fun m => m.toJson rawMessage))) =
      done { old with metadata := ms.map (ContextMetadata.sent rawMessage mapstructure) } := by
  have hmetadata : foldName "metadata" = "METADATA" := by decide
  simp [attributeMember, hmetadata, decodeSlice,
    items_map_of_done (fun m hm => decodeMetadata_toJson (h m hm))]

theorem members_metadata (h : ∀ m ∈ attr.metadata, m.Sendable rawMessage mapstructure)
    (name type : String) (v : ν) :
    members (attributeMember mapstructure decodeValue) ⟨name, type, v, []⟩
        (omitSlice "metadata" (attr.metadata.map (fun m => m.toJson rawMessage))) =
      done ⟨name, type, v, attr.metadata.map (.sent rawMessage mapstructure)⟩ := by
  rw [omitSlice]
  split_ifs with hnone
  · rw [List.isEmpty_iff, List.map_eq_nil_iff] at hnone
    rw [hnone]
    rfl
  · rw [members_cons_of_done (attributeMember_metadata _ h), members_nil]

-- the value comes after the name and the type
theorem decodeObject_attribute (v : ν) (attr : ContextAttribute) :
    decodeObject (attributeMember mapstructure decodeValue) ⟨"", "", v, []⟩
        (attr.toJson rawMessage) =
      members (attributeMember mapstructure decodeValue) ⟨attr.name, attr.type, v, []⟩
        (("value", marshal rawMessage attr.value) ::
          omitSlice "metadata" (attr.metadata.map (fun m => m.toJson rawMessage))) := by
  rw [ContextAttribute.toJson, decodeObject, List.append_assoc, List.append_assoc,
    List.singleton_append, members_cons_of_done (attributeMember_name _ _), omitString]
  split_ifs with htype
  · rw [htype]
    rfl
  · rw [List.singleton_append, members_cons_of_done (attributeMember_type _ _),
      List.singleton_append]

theorem decodeAttribute_toJson (text : Json → String)
    (h : ∀ m ∈ attr.metadata, m.Sendable rawMessage mapstructure) :
    decodeAttribute text mapstructure (attr.toJson rawMessage) =
      done ⟨attr.name, attr.type,
        typedValue text attr.type (some (marshal rawMessage attr.value)),
        attr.metadata.map (.sent rawMessage mapstructure)⟩ := by
  have hvalue : attributeMember mapstructure rawValue ⟨attr.name, attr.type, none, []⟩
      ("value", marshal rawMessage attr.value) =
        done ⟨attr.name, attr.type, some (marshal rawMessage attr.value), []⟩ :=
    attributeMember_value _ _
  rw [decodeAttribute, decodeObject_attribute, members_cons_of_done hvalue, members_metadata h,
    failed_done]
  rfl

-- an array is a value of the internal struct, and what else it holds is passed over
def sliceOf : Json → Option (List Value)
  | .array js => some (unmarshalItems js)
  | _ => none

theorem reaches_sliceValue (j : Json) : Reaches (sliceValue none j) (sliceOf j) := by
  cases j <;> exact ⟨rfl, rfl⟩

theorem reaches_decodeInternalAttribute
    (h : ∀ m ∈ attr.metadata, m.Sendable rawMessage mapstructure) :
    Reaches (decodeInternalAttribute mapstructure (attr.toJson rawMessage))
      ⟨attr.name, attr.type, sliceOf (marshal rawMessage attr.value),
        attr.metadata.map (.sent rawMessage mapstructure)⟩ := by
  have hvalue : Reaches
      (attributeMember mapstructure sliceValue
        (⟨attr.name, attr.type, none, []⟩ : AttributeObject (Option (List Value)))
        ("value", marshal rawMessage attr.value))
      ⟨attr.name, attr.type, sliceOf (marshal rawMessage attr.value), []⟩ := by
    rw [attributeMember_value]
    exact (reaches_sliceValue _).map _
  rw [decodeInternalAttribute, decodeObject_attribute, members_cons_of_reaches hvalue,
    members_metadata h]
  exact reaches_done _

end Attribute

section Settled

-- what is left of a value whose type goes with it: the centre of a circle has no key to be read by
def settled : Value → Value
  | .circle c => .circle ⟨0, 0, c.radius⟩
  | v => v

@[simp] theorem settled_settled (v : Value) : settled (settled v) = settled v := by
  cases v <;> rfl

theorem settled_of_isJson {v : Value} (h : IsJson v) : settled v = v := by
  obtain ⟨j, rfl⟩ := h
  cases j <;> rfl

variable {m : ContextMetadata}

theorem ofJson_toJson_of_matching (hms : MatchesFieldNames mapstructure) (hm : m.Matching) :
    ContextMetadata.ofJson mapstructure (m.toJson rawMessage) =
      some ⟨m.name, m.type, settled m.value, received rawMessage m.cordinates⟩ := by
  rw [ContextMetadata.ofJson, decodeInternal_toJson, Option.bind_some]
  unfold ContextMetadata.Matching at hm
  unfold ContextMetadata.unmarshalJSON
  split at hm
  · obtain ⟨c, hc⟩ := hm
    simp [*, mapstructure_circle hms, settled]
  · obtain ⟨p, hp⟩ := hm
    have hpoint : mapstructure.point (received rawMessage (.point p)) = some p :=
      mapstructure_point hms p
    simp [*, settled]
  · obtain ⟨p, hp⟩ := hm
    simp [*, mapstructure_polygon hms, settled]
  · simp [hm.received_eq, settled_of_isJson hm]

theorem sendable_of_matching (hms : MatchesFieldNames mapstructure) (hm : m.Matching) :
    m.Sendable rawMessage mapstructure := by
  rw [ContextMetadata.Sendable, ofJson_toJson_of_matching hms hm]
  rfl

theorem sent_eq (hms : MatchesFieldNames mapstructure) (hm : m.Matching) :
    m.sent rawMessage mapstructure =
      ⟨m.name, m.type, settled m.value, received rawMessage m.cordinates⟩ := by
  rw [ContextMetadata.sent, ofJson_toJson_of_matching hms hm, Option.getD_some]

-- a metadata that arrived can be sent on
theorem matching_settled (hm : m.Matching) (cordinates : Value) :
    ContextMetadata.Matching ⟨m.name, m.type, settled m.value, cordinates⟩ := by
  unfold ContextMetadata.Matching at hm ⊢
  dsimp only
  split at hm
  · obtain ⟨c, hc⟩ := hm
    simp [*, settled]
  · obtain ⟨p, hp⟩ := hm
    simp [*, settled]
  · obtain ⟨p, hp⟩ := hm
    simp [*, settled]
  · rw [settled_of_isJson hm]
    exact hm

theorem sent_sent (hms : MatchesFieldNames mapstructure) (hm : m.Matching) :
    (m.sent rawMessage mapstructure).sent rawMessage mapstructure =
      m.sent rawMessage mapstructure := by
  rw [sent_eq hms hm, sent_eq hms (matching_settled hm _)]
  simp only [settled_settled, received_received]

end Settled

section Values

-- a value as the decoder of the attribute reads it from what marshal has written
def plainValue (rawMessage : String → Json) (text : Json → String) (type : String) (v : Value) :
    Value :=
  typedValue text type (some (marshal rawMessage v))

-- the parser of responses and notifications keeps an array whatever the type says
def hybridValue (rawMessage : String → Json) (text : Json → String) (type : String) (v : Value) :
    Value :=
  match sliceOf (marshal rawMessage v) with
  | some items => .array items
  | none => plainValue rawMessage text type v

variable {type : String}

theorem typedValue_stable {j : Json} (hraw : rawMessage (text j) = j) :
    plainValue rawMessage text type (typedValue text type (some j)) =
      typedValue text type (some j) := by
  have hzero : isInt64 0 = true := by simp [isInt64]
  unfold plainValue typedValue
  split
  · cases j <;> simp [marshal, hzero]
    split_ifs with hint <;> simp [marshal, hint, hzero]
  · cases j <;> simp [marshal]
  · cases j <;> simp [marshal]
  · cases j <;> simp [marshal]
  · cases j with
    | object ms => exact received_unmarshal (.object ms)
    | _ => rfl
  · simp [marshal, hraw]

theorem plainValue_stable {v : Value}
    (hraw : rawMessage (text (marshal rawMessage v)) = marshal rawMessage v) :
    plainValue rawMessage text type (plainValue rawMessage text type v) =
      plainValue rawMessage text type v :=
  typedValue_stable hraw

theorem hybridValue_of_not_array {v : Value} (h : sliceOf (marshal rawMessage v) = none) :
    hybridValue rawMessage text type v = plainValue rawMessage text type v := by
  rw [hybridValue, h]

theorem sliceOf_typedValue {j : Json} (hraw : rawMessage (text j) = j) (h : sliceOf j = none) :
    sliceOf (marshal rawMessage (typedValue text type (some j))) = none := by
  unfold typedValue
  split
  · cases j <;> simp [marshal, sliceOf]
    split_ifs <;> simp [marshal]
  · cases j <;> simp [marshal, sliceOf]
  · cases j <;> simp [marshal, sliceOf]
  · cases j <;> simp [marshal, sliceOf]
  · cases j <;> simp [marshal, unmarshal, sliceOf]
  · simpa [marshal, hraw] using h

theorem hybridValue_stable {v : Value}
    (hraw : rawMessage (text (marshal rawMessage v)) = marshal rawMessage v) :
    hybridValue rawMessage text type (hybridValue rawMessage text type v) =
      hybridValue rawMessage text type v := by
  cases hslice : sliceOf (marshal rawMessage v) with
  | some items =>
    have hv : hybridValue rawMessage text type v = .array items := by rw [hybridValue, hslice]
    have hitems : received rawMessage (.array items) = .array items := by
      cases hj : marshal rawMessage v with
      | array js =>
        rw [hj] at hslice
        rw [← Option.some.inj hslice]
        exact received_unmarshal (.array js)
      | _ =>
        rw [hj] at hslice
        cases hslice
    rw [hv, hybridValue, marshal, sliceOf, ← hitems]
    rfl
  | none =>
    have hplain : sliceOf (marshal rawMessage (plainValue rawMessage text type v)) = none :=
      sliceOf_typedValue hraw hslice
    rw [hybridValue_of_not_array hslice, hybridValue_of_not_array hplain, plainValue_stable hraw]

-- the values that their type lets through
def FitsType (rawMessage : String → Json) (text : Json → String) (type : String) (v : Value) :
    Prop :=
  match type with
  | "integer" => ∃ q, v = .number q ∧ isInt64 q = true
  | "float" => ∃ q, v = .number q
  | "boolean" => ∃ b, v = .bool b
  | "string" => ∃ s, v = .string s
  | "object" => v = .null ∨ (∃ fields, v = .object fields) ∧ IsJson v
  | _ => v = .raw (text (marshal rawMessage v))

theorem unmarshal_of_sliceOf {j : Json} {items : List Value} (h : sliceOf j = some items) :
    unmarshal j = .array items := by
  cases j with
  | array js => rw [← Option.some.inj h, unmarshal]
  | _ => cases h

theorem plainValue_eq_iff {v : Value} :
    plainValue rawMessage text type v = v ↔ FitsType rawMessage text type v := by
  unfold plainValue typedValue FitsType
  split
  · constructor
    · intro h
      split at h
      · split_ifs at h with hint
        · exact ⟨_, h.symm, hint⟩
        · exact ⟨0, h.symm, by simp [isInt64]⟩
      · exact ⟨0, h.symm, by simp [isInt64]⟩
    · rintro ⟨q, rfl, hq⟩
      simp [marshal, hq]
  · constructor
    · intro h
      split at h <;> exact ⟨_, h.symm⟩
    · rintro ⟨q, rfl⟩
      simp [marshal]
  · constructor
    · intro h
      split at h <;> exact ⟨_, h.symm⟩
    · rintro ⟨q, rfl⟩
      simp [marshal]
  · constructor
    · intro h
      split at h <;> exact ⟨_, h.symm⟩
    · rintro ⟨q, rfl⟩
      simp [marshal]
  · constructor
    · intro h
      split at h
      · exact .inr ⟨⟨_, h.symm⟩, ⟨_, h.symm⟩⟩
      · exact .inl h.symm
    · rintro (rfl | ⟨⟨fields, rfl⟩, hjson⟩)
      · simp [marshal]
      · have hreceived : received rawMessage (.object fields) = .object fields := hjson.received_eq
        simpa [marshal, received] using hreceived
  · exact eq_comm

-- an array is let through whatever the type says
def Fits (rawMessage : String → Json) (text : Json → String) (type : String) (v : Value) : Prop :=
  match sliceOf (marshal rawMessage v) with
  | some _ => IsJson v
  | none => FitsType rawMessage text type v

theorem hybridValue_eq_iff {v : Value} :
    hybridValue rawMessage text type v = v ↔ Fits rawMessage text type v := by
  unfold hybridValue Fits
  split
  · next items hslice =>
    have harray := unmarshal_of_sliceOf hslice
    rw [← harray]
    exact received_eq_iff rawMessage
  · exact plainValue_eq_iff

end Values

end FogFlow.Ngsi
