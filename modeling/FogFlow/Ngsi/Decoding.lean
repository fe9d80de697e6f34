import FogFlow.Ngsi.Context

namespace FogFlow.Ngsi

-- encoding/json applied to the raw scope value, for each Go type the decoder asks for
structure JsonUnmarshal where
  segment : String → Option Segment
  circle : String → Option Circle
  point : String → Option Point
  polygon : String → Option Polygon
  nearBy : String → Option NearBy
  string : String → Option String

-- mapstructure.Decode applied to a decoded JSON value
structure MapDecode where
  circle : Value → Option Circle
  point : Value → Option Point
  polygon : Value → Option Polygon

def OperationScope.unmarshalJSON (json : JsonUnmarshal) (type value : String) :
    Option OperationScope :=
  match type with
  | "simplegeolocation" => (json.segment value).map (fun temp => ⟨type, .segment temp⟩)
  | "circle" => (json.circle value).map (fun temp => ⟨type, .circle temp⟩)
  | "point" => (json.point value).map (fun temp => ⟨type, .point temp⟩)
  | "polygon" => (json.polygon value).map (fun temp => ⟨type, .polygon temp⟩)
  | "nearby" => (json.nearBy value).map (fun temp => ⟨type, .nearBy temp⟩)
  | "global" => (json.string value).map (fun temp => ⟨type, .string temp⟩)
  | "stringQuery" => (json.string value).map (fun temp => ⟨type, .string temp⟩)
  | _ => some ⟨type, .raw value⟩

def ContextMetadata.unmarshalJSON (mapstructure : MapDecode) (m : ContextMetadata) :
    Option ContextMetadata :=
  match toLower m.type with
  | "circle" => (mapstructure.circle m.value).map (fun temp => { m with value := .circle temp })
  | "point" => (mapstructure.point m.value).map (fun temp => { m with value := .point temp })
  | "polygon" => (mapstructure.polygon m.value).map (fun temp => { m with value := .polygon temp })
  | _ => some m

def OperationScope.Decoded (json : JsonUnmarshal) (scope : OperationScope) : Prop :=
  ∃ type value, unmarshalJSON json type value = some scope

def ContextMetadata.Decoded (mapstructure : MapDecode) (metadata : ContextMetadata) : Prop :=
  ∃ m, unmarshalJSON mapstructure m = some metadata

def Restriction.Decoded (json : JsonUnmarshal) (restriction : Restriction) : Prop :=
  ∀ scope ∈ restriction.scopes, scope.Decoded json

def RegisterContextRequest.Decoded (mapstructure : MapDecode)
    (registReq : RegisterContextRequest) : Prop :=
  ∀ registration ∈ registReq.contextRegistrations, ∀ metadata ∈ registration.metadata,
    metadata.Decoded mapstructure

variable {json : JsonUnmarshal} {mapstructure : MapDecode} {scope : OperationScope}
  {metadata : ContextMetadata}

theorem OperationScope.Decoded.kinds (h : scope.Decoded json) :
    (scope.type = "simplegeolocation" ∧ ∃ s, scope.value = .segment s) ∨
    (scope.type = "circle" ∧ ∃ c, scope.value = .circle c) ∨
    (scope.type = "point" ∧ ∃ p, scope.value = .point p) ∨
    (scope.type = "polygon" ∧ ∃ p, scope.value = .polygon p) ∨
    (scope.type = "nearby" ∧ ∃ n, scope.value = .nearBy n) ∨
    (scope.type = "global" ∧ ∃ s, scope.value = .string s) ∨
    (scope.type = "stringQuery" ∧ ∃ s, scope.value = .string s) ∨
    (scope.type ∉ ["simplegeolocation", "circle", "point", "polygon", "nearby", "global",
      "stringQuery"] ∧ ∃ t, scope.value = .raw t) := by
  obtain ⟨type, value, h⟩ := h
  unfold unmarshalJSON at h
  split at h
  all_goals
    simp only [Option.map_eq_some_iff, Option.some.injEq] at h
  case h_8 =>
    subst h
    simp_all
  all_goals
    obtain ⟨temp, -, rfl⟩ := h
    simp

theorem OperationScope.Decoded.circle (h : scope.Decoded json) :
    (∃ c, scope.value = .circle c) ↔ scope.type = "circle" := by
  have hkinds := h.kinds
  grind

theorem OperationScope.Decoded.polygon (h : scope.Decoded json) :
    (∃ p, scope.value = .polygon p) ↔ scope.type = "polygon" := by
  have hkinds := h.kinds
  grind

theorem OperationScope.Decoded.string (h : scope.Decoded json) :
    (∃ s, scope.value = .string s) ↔ scope.type = "global" ∨ scope.type = "stringQuery" := by
  have hkinds := h.kinds
  grind

theorem OperationScope.Decoded.nearBy (h : scope.Decoded json) :
    (∃ n, scope.value = .nearBy n) ↔ scope.type = "nearby" := by
  have hkinds := h.kinds
  grind

theorem ContextMetadata.Decoded.kinds (h : metadata.Decoded mapstructure) :
    (toLower metadata.type = "circle" ∧ ∃ c, metadata.value = .circle c) ∨
    (toLower metadata.type = "point" ∧ ∃ p, metadata.value = .point p) ∨
    (toLower metadata.type = "polygon" ∧ ∃ p, metadata.value = .polygon p) ∨
    toLower metadata.type ∉ ["circle", "point", "polygon"] := by
  obtain ⟨m, h⟩ := h
  unfold unmarshalJSON at h
  split at h
  all_goals
    simp only [Option.map_eq_some_iff, Option.some.injEq] at h
  case h_4 =>
    subst h
    simp_all
  all_goals
    obtain ⟨temp, -, rfl⟩ := h
    simp_all

-- the decoder lowers the type before it looks, so the exact type that the readers ask for is safe
theorem ContextMetadata.Decoded.point (h : metadata.Decoded mapstructure)
    (ht : metadata.type = "point") : ∃ p, metadata.value = .point p := by
  have hlower : toLower metadata.type = "point" := by
    rw [ht]
    decide
  have hkinds := h.kinds
  grind

end FogFlow.Ngsi
