import FogFlow.Ngsi.Decoding
import FogFlow.Ngsi.Json

namespace FogFlow.Ngsi

open Fields

-- names are folded; two characters outside ASCII fold to an ASCII letter
def foldRune (c : Char) : Char :=
  if c = Char.ofNat 0x212A then 'K'
  else if c = Char.ofNat 0x17F then 'S'
  else c.toUpper

def foldName (s : String) : String := String.ofList (s.toList.map foldRune)

def ContextMetadata.toJson (rawMessage : String → Json) (m : ContextMetadata) : Json :=
  .object ([("name", .string m.name)] ++ (if m.type = "" then [] else [("type", .string m.type)]) ++
    [("value", marshal rawMessage m.value)] ++
    if m.cordinates = .null then [] else [("coordinates", marshal rawMessage m.cordinates)])

-- null leaves a string as it is
def decodeString (old : String) : Json → Option String
  | .string s => some s
  | .null => some old
  | _ => none

def decodeMember (m : ContextMetadata) (member : String × Json) : Option ContextMetadata :=
  match foldName member.1 with
  | "NAME" => (decodeString m.name member.2).map (fun s => { m with name := s })
  | "TYPE" => (decodeString m.type member.2).map (fun s => { m with type := s })
  | "VALUE" => some { m with value := unmarshal member.2 }
  | "COORDINATES" => some { m with cordinates := unmarshal member.2 }
  | _ => some m

-- json.Unmarshal into the internal struct of UnmarshalJSON
def decodeInternal : Json → Option ContextMetadata
  | .object members => members.foldlM decodeMember ContextMetadata.zero
  | .null => some ContextMetadata.zero
  | _ => none

def ContextMetadata.ofJson (mapstructure : MapDecode) (j : Json) : Option ContextMetadata :=
  (decodeInternal j).bind (unmarshalJSON mapstructure)

theorem decodeInternal_isJson {j : Json} {m : ContextMetadata} (h : decodeInternal j = some m) :
    IsJson m.value := by
  have hzero : IsJson ContextMetadata.zero.value := ⟨.null, rfl⟩
  cases j with
  | object members =>
    rw [decodeInternal] at h
    generalize ContextMetadata.zero = init at h hzero
    induction members generalizing init with
    | nil =>
      obtain rfl : init = m := Option.some.inj h
      exact hzero
    | cons member members ih =>
      obtain ⟨next, hnext, hrest⟩ := Option.bind_eq_some_iff.mp h
      refine ih next hrest ?_
      unfold decodeMember at hnext
      split at hnext
      · obtain ⟨s, -, rfl⟩ := Option.map_eq_some_iff.mp hnext
        exact hzero
      · obtain ⟨s, -, rfl⟩ := Option.map_eq_some_iff.mp hnext
        exact hzero
      · rw [← Option.some.inj hnext]
        exact ⟨_, rfl⟩
      · rw [← Option.some.inj hnext]
        exact hzero
      · rwa [← Option.some.inj hnext]
  | null =>
    rw [← Option.some.inj h]
    exact hzero
  | _ => cases h

def Unambiguous (fields : List (String × Value)) : Prop :=
  (fields.map (fun f => foldName f.1)).Nodup

-- the field of a struct keeps its zero value when no key matches
def FloatField (fields : List (String × Value)) (name : String) (q : ℚ) : Prop :=
  (∃ f ∈ fields, foldName f.1 = foldName name ∧ f.2 = .number q) ∨
    (∀ f ∈ fields, foldName f.1 ≠ foldName name) ∧ q = 0

-- mapstructure looks for the names of the Go fields, whatever the tags say
structure MatchesFieldNames (mapstructure : MapDecode) : Prop where
  point : ∀ fields (p : Point), Unambiguous fields → FloatField fields "Latitude" p.latitude →
    FloatField fields "Longitude" p.longitude → mapstructure.point (.object fields) = some p
  circle : ∀ fields (c : Circle), Unambiguous fields → FloatField fields "Latitude" c.latitude →
    FloatField fields "Longitude" c.longitude → FloatField fields "Radius" c.radius →
    mapstructure.circle (.object fields) = some c
  polygon : ∀ fields items vertices, Unambiguous fields →
    (∃ f ∈ fields, foldName f.1 = foldName "Vertices" ∧ f.2 = .array items) →
    List.Forall₂ (fun item p => mapstructure.point item = some p) items vertices →
    mapstructure.polygon (.object fields) = some ⟨vertices⟩

-- the value has the Go type that goes with the type
def ContextMetadata.Matching (m : ContextMetadata) : Prop :=
  match toLower m.type with
  | "circle" => ∃ c, m.value = .circle c
  | "point" => ∃ p, m.value = .point p
  | "polygon" => ∃ p, m.value = .polygon p
  | _ => IsJson m.value

variable {rawMessage : String → Json} {mapstructure : MapDecode} {m : ContextMetadata}

theorem decodeInternal_toJson (m : ContextMetadata) :
    decodeInternal (m.toJson rawMessage) =
      some ⟨m.name, m.type, received rawMessage m.value, received rawMessage m.cordinates⟩ := by
  have hname : foldName "name" = "NAME" := by decide
  have htype : foldName "type" = "TYPE" := by decide
  have hvalue : foldName "value" = "VALUE" := by decide
  have hcoordinates : foldName "coordinates" = "COORDINATES" := by decide
  rw [ContextMetadata.toJson, decodeInternal]
  split_ifs with ht hc hc <;>
    simp [decodeMember, hname, htype, hvalue, hcoordinates, decodeString, ContextMetadata.zero,
      received, ht, hc, marshal, unmarshal]

theorem unambiguous_canonical {fields : List (String × Value)}
    (hnd : (fields.map Prod.fst).Nodup) (h : Unambiguous fields) :
    Unambiguous (canonical fields) :=
  ((canonical_perm hnd).map _).nodup_iff.mpr h

theorem floatField_canonical {fields : List (String × Value)} {name : String} {q : ℚ}
    (hnd : (fields.map Prod.fst).Nodup) (h : FloatField fields name q) :
    FloatField (canonical fields) name q := by
  simpa only [FloatField, (canonical_perm hnd).mem_iff] using h

theorem FloatField.of_mem {fields : List (String × Value)} {name k : String} {q : ℚ}
    (hmem : (k, .number q) ∈ fields) (hk : foldName k = foldName name) :
    FloatField fields name q :=
  Or.inl ⟨_, hmem, hk, rfl⟩

theorem mapstructure_point (h : MatchesFieldNames mapstructure) (p : Point) :
    mapstructure.point (unmarshal p.toJson) = some p := by
  let fields : List (String × Value) :=
    [("latitude", .number p.latitude), ("longitude", .number p.longitude)]
  have hnd : (fields.map Prod.fst).Nodup := by
    change ["latitude", "longitude"].Nodup
    decide
  have hunambiguous : Unambiguous fields := by
    change [foldName "latitude", foldName "longitude"].Nodup
    decide
  have hlatitude : FloatField fields "Latitude" p.latitude :=
    .of_mem (by simp [fields]) (by decide : foldName "latitude" = foldName "Latitude")
  have hlongitude : FloatField fields "Longitude" p.longitude :=
    .of_mem (by simp [fields]) (by decide : foldName "longitude" = foldName "Longitude")
  exact h.point (canonical fields) p (unambiguous_canonical hnd hunambiguous)
    (floatField_canonical hnd hlatitude) (floatField_canonical hnd hlongitude)

-- no key of the centre is the name of a field
theorem mapstructure_circle (h : MatchesFieldNames mapstructure) (c : Circle) :
    mapstructure.circle (received rawMessage (.circle c)) = some ⟨0, 0, c.radius⟩ := by
  let fields : List (String × Value) :=
    [("centerLatitude", .number c.latitude), ("centerLongitude", .number c.longitude),
      ("radius", .number c.radius)]
  have hnd : (fields.map Prod.fst).Nodup := by
    change ["centerLatitude", "centerLongitude", "radius"].Nodup
    decide
  have hunambiguous : Unambiguous fields := by
    change [foldName "centerLatitude", foldName "centerLongitude", foldName "radius"].Nodup
    decide
  have hnone : ∀ name ∈ ["Latitude", "Longitude"], FloatField fields name 0 := by
    have hdistinct : ∀ k ∈ ["centerLatitude", "centerLongitude", "radius"],
        ∀ name ∈ ["Latitude", "Longitude"], foldName k ≠ foldName name := by
      decide
    intro name hname
    refine Or.inr ⟨fun f hf => hdistinct f.1 ?_ name hname, rfl⟩
    exact List.mem_map_of_mem (f := Prod.fst) hf
  have hradius : FloatField fields "Radius" c.radius :=
    .of_mem (by simp [fields]) (by decide : foldName "radius" = foldName "Radius")
  exact h.circle (canonical fields) ⟨0, 0, c.radius⟩ (unambiguous_canonical hnd hunambiguous)
    (floatField_canonical hnd (hnone _ (by simp))) (floatField_canonical hnd (hnone _ (by simp)))
    (floatField_canonical hnd hradius)

theorem mapstructure_polygon (h : MatchesFieldNames mapstructure) (p : Polygon) :
    mapstructure.polygon (received rawMessage (.polygon p)) = some p := by
  let items : List Value := unmarshalItems (p.vertices.map Point.toJson)
  have hnd : ([("vertices", Value.array items)].map Prod.fst).Nodup := List.nodup_singleton _
  have hvertices : List.Forall₂ (fun item q => mapstructure.point item = some q) items
      p.vertices := by
    have hitems : items = p.vertices.map (fun q => unmarshal q.toJson) := by
      simp [items, unmarshalItems_eq]
    rw [hitems, List.forall₂_map_left_iff, List.forall₂_same]
    exact fun q _ => mapstructure_point h q
  refine h.polygon (canonical [("vertices", .array items)]) items p.vertices
    (unambiguous_canonical hnd (List.nodup_singleton _)) ?_ hvertices
  have hname : foldName "vertices" = foldName "Vertices" := by decide
  exact ⟨("vertices", .array items), (canonical_perm hnd).mem_iff.mpr (by simp), hname, rfl⟩

theorem received_eq_iff (rawMessage : String → Json) {v : Value} :
    received rawMessage v = v ↔ IsJson v :=
  ⟨fun h => ⟨_, h.symm⟩, IsJson.received_eq⟩

theorem decoded_circle_eq (c : Circle) :
    (⟨0, 0, c.radius⟩ : Circle) = c ↔ c.latitude = 0 ∧ c.longitude = 0 := by
  obtain ⟨latitude, longitude, radius⟩ := c
  simp [eq_comm]

theorem unmarshalJSON_received (rawMessage : String → Json) (h : MatchesFieldNames mapstructure)
    (hm : m.Matching) :
    ∃ v, ContextMetadata.unmarshalJSON mapstructure
        ⟨m.name, m.type, received rawMessage m.value, received rawMessage m.cordinates⟩ =
          some ⟨m.name, m.type, v, received rawMessage m.cordinates⟩ ∧
      (v = m.value ↔ ∀ c, m.value = .circle c → c.latitude = 0 ∧ c.longitude = 0) := by
  unfold ContextMetadata.Matching at hm
  unfold ContextMetadata.unmarshalJSON
  split at hm
  · obtain ⟨c, hc⟩ := hm
    refine ⟨.circle ⟨0, 0, c.radius⟩, ?_, ?_⟩
    · simp [*, mapstructure_circle h]
    · simp [hc, decoded_circle_eq]
  · obtain ⟨p, hp⟩ := hm
    refine ⟨.point p, ?_, by simp [hp]⟩
    have hpoint : mapstructure.point (received rawMessage (.point p)) = some p :=
      mapstructure_point h p
    simp [*]
  · obtain ⟨p, hp⟩ := hm
    refine ⟨.polygon p, ?_, by simp [hp]⟩
    simp [*, mapstructure_polygon h]
  · obtain ⟨j, hj⟩ := hm
    have hreceived : received rawMessage m.value = m.value := IsJson.received_eq ⟨j, hj⟩
    refine ⟨m.value, ?_, ?_⟩
    · simp [hreceived]
    · have hcircle : ∀ c, m.value ≠ .circle c := by
        intro c
        rw [hj]
        cases j <;> simp [unmarshal]
      simp [hcircle]

def fieldOf (name : String) (fields : List (String × Value)) : Option Value :=
  (fields.find? (fun f => foldName f.1 == foldName name)).map Prod.snd

def floatOf (name : String) (fields : List (String × Value)) : Option ℚ :=
  match fieldOf name fields with
  | some (.number q) => some q
  | some _ => none
  | none => some 0

def pointOf : Value → Option Point
  | .object fields => do
      let latitude ← floatOf "Latitude" fields
      let longitude ← floatOf "Longitude" fields
      some ⟨latitude, longitude⟩
  | _ => none

def circleOf : Value → Option Circle
  | .object fields => do
      let latitude ← floatOf "Latitude" fields
      let longitude ← floatOf "Longitude" fields
      let radius ← floatOf "Radius" fields
      some ⟨latitude, longitude, radius⟩
  | _ => none

def polygonOf : Value → Option Polygon
  | .object fields =>
      match fieldOf "Vertices" fields with
      | some (.array items) => (items.mapM pointOf).map Polygon.mk
      | some _ => none
      | none => some ⟨[]⟩
  | _ => none

def byFieldNames : MapDecode := ⟨circleOf, pointOf, polygonOf⟩

theorem fieldOf_eq {fields : List (String × Value)} {name : String} {f : String × Value}
    (hu : Unambiguous fields) (hf : f ∈ fields) (hk : foldName f.1 = foldName name) :
    fieldOf name fields = some f.2 := by
  induction fields with
  | nil => simp at hf
  | cons g fields ih =>
    rw [Unambiguous, List.map_cons, List.nodup_cons] at hu
    rw [fieldOf, List.find?_cons]
    rcases List.mem_cons.mp hf with rfl | hf
    · simp [hk]
    · have hg : (foldName g.1 == foldName name) = false := by
        rw [beq_eq_false_iff_ne, ← hk]
        exact fun he => hu.1 (List.mem_map.mpr ⟨f, hf, he.symm⟩)
      rw [hg]
      exact ih hu.2 hf

theorem floatOf_eq {fields : List (String × Value)} {name : String} {q : ℚ}
    (hu : Unambiguous fields) (h : FloatField fields name q) : floatOf name fields = some q := by
  rcases h with ⟨f, hf, hk, hq⟩ | ⟨habsent, rfl⟩
  · rw [floatOf, fieldOf_eq hu hf hk, hq]
  · have hnone : fields.find? (fun f => foldName f.1 == foldName name) = none := by
      rw [List.find?_eq_none]
      exact fun f hf => by simpa using habsent f hf
    rw [floatOf, fieldOf, hnone, Option.map_none]

theorem matchesFieldNames_byFieldNames : MatchesFieldNames byFieldNames := by
  refine ⟨fun fields p hu hlat hlon => ?_, fun fields c hu hlat hlon hrad => ?_,
    fun fields items vertices hu hvertices hitems => ?_⟩
  · simp [byFieldNames, pointOf, floatOf_eq hu hlat, floatOf_eq hu hlon]
  · simp [byFieldNames, circleOf, floatOf_eq hu hlat, floatOf_eq hu hlon, floatOf_eq hu hrad]
  · obtain ⟨f, hf, hk, harray⟩ := hvertices
    have hmap : items.mapM pointOf = some vertices := by
      clear harray hf
      induction hitems with
      | nil => rfl
      | cons hitem hrest ih =>
        rw [List.mapM_cons, show pointOf _ = _ from hitem, ih]
        rfl
    simp [byFieldNames, polygonOf, fieldOf_eq hu hf hk, harray, hmap]

def fence : ContextMetadata := ⟨"area", "circle", .circle ⟨49, 8, 500⟩, .null⟩

theorem fence_matching : fence.Matching := ⟨⟨49, 8, 500⟩, rfl⟩

-- the centre of a circle is lost, and coordinates keep only what JSON can tell
theorem ofJson_toJson_eq_iff (h : MatchesFieldNames mapstructure) (hm : m.Matching) :
    ContextMetadata.ofJson mapstructure (m.toJson rawMessage) = some m ↔
      (∀ c, m.value = .circle c → c.latitude = 0 ∧ c.longitude = 0) ∧ IsJson m.cordinates := by
  obtain ⟨v, hv, hvalue⟩ := unmarshalJSON_received rawMessage h hm
  rw [ContextMetadata.ofJson, decodeInternal_toJson, Option.bind_some, hv, ← hvalue,
    ← received_eq_iff rawMessage, Option.some.injEq]
  obtain ⟨name, type, value, cordinates⟩ := m
  simp

theorem fence_sent :
    MatchesFieldNames byFieldNames ∧ fence.Matching ∧
      (ContextMetadata.ofJson byFieldNames (fence.toJson .string) = some fence ↔
        (∀ c, fence.value = .circle c → c.latitude = 0 ∧ c.longitude = 0) ∧
          IsJson fence.cordinates) :=
  ⟨matchesFieldNames_byFieldNames, fence_matching,
    ofJson_toJson_eq_iff matchesFieldNames_byFieldNames fence_matching⟩

theorem fence_loses_centre :
    MatchesFieldNames byFieldNames ∧ fence.Matching ∧
      ContextMetadata.ofJson byFieldNames (fence.toJson .string) ≠ some fence := by
  refine ⟨matchesFieldNames_byFieldNames, fence_matching, ?_⟩
  obtain ⟨v, hv, hvalue⟩ :=
    unmarshalJSON_received .string matchesFieldNames_byFieldNames fence_matching
  rw [ContextMetadata.ofJson, decodeInternal_toJson, Option.bind_some, hv]
  intro heq
  have hv' : v = fence.value := congrArg ContextMetadata.value (Option.some.inj heq)
  have hcentre := (hvalue.mp hv' ⟨49, 8, 500⟩ rfl).1
  exact absurd hcentre (by decide)

end FogFlow.Ngsi
