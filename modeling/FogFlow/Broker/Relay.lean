import FogFlow.Broker.QueryContext
import FogFlow.Broker.WireTransfer

namespace FogFlow.Broker.Relay

open Ngsi ElementJson WireTransfer Loop

variable {rawMessage : String → Json} {text : Json → String} {mapstructure : MapDecode}

-- a parsed element has neither the id nor the type of the Orion form
def forwarded (e : ContextElement) : WrittenElement := ⟨⟨"", e⟩, ""⟩

-- one broker receives the notification and notifies its own subscribers
def relay (rawMessage : String → Json) (text : Json → String) (mapstructure : MapDecode)
    (elems : List WrittenElement) (subscriptionId : String) :
    Except Fault (List WrittenElement) := do
  let message ← parseContextElementResponses text mapstructure .notifyContextRequest
    (notifyContextRequest rawMessage elems subscriptionId)
  .ok (message.contextResponses.map (fun r => forwarded r.contextElement))

-- a value without a type of its own keeps its text, and the others go with their types
structure Relayable (rawMessage : String → Json) (text : Json → String)
    (element : ContextElement) : Prop where
  verbatim : ∀ attr ∈ element.attributes,
    rawMessage (text (marshal rawMessage attr.value)) = marshal rawMessage attr.value
  attributes : ∀ attr ∈ element.attributes, ∀ m ∈ attr.metadata, m.Matching
  metadata : ∀ m ∈ element.metadata, m.Matching

theorem sendable_of_relayable {element : ContextElement} (hms : MatchesFieldNames mapstructure)
    (h : Relayable rawMessage text element) : Sendable rawMessage mapstructure element :=
  ⟨fun attr hattr m hm => sendable_of_matching hms (h.attributes attr hattr m hm),
    fun m hm => sendable_of_matching hms (h.metadata m hm)⟩

theorem sent_map_settled {ms : List ContextMetadata} (hms : MatchesFieldNames mapstructure)
    (h : ∀ m ∈ ms, m.Matching) :
    ∀ m ∈ ms.map (ContextMetadata.sent rawMessage mapstructure), m.Matching := by
  intro m hm
  obtain ⟨m', hm', rfl⟩ := List.mem_map.mp hm
  rw [sent_eq hms (h m' hm')]
  exact matching_settled (h m' hm') _

theorem sent_map_sent {ms : List ContextMetadata} (hms : MatchesFieldNames mapstructure)
    (h : ∀ m ∈ ms, m.Matching) :
    (ms.map (ContextMetadata.sent rawMessage mapstructure)).map
        (ContextMetadata.sent rawMessage mapstructure) =
      ms.map (ContextMetadata.sent rawMessage mapstructure) := by
  rw [List.map_map]
  exact List.map_congr_left (fun m hm => sent_sent hms (h m hm))

theorem attribute_attribute {attr : ContextAttribute} (hms : MatchesFieldNames mapstructure)
    (hraw : rawMessage (text (marshal rawMessage attr.value)) = marshal rawMessage attr.value)
    (hmeta : ∀ m ∈ attr.metadata, m.Matching) :
    (wireCodec rawMessage text mapstructure).attribute
        ((wireCodec rawMessage text mapstructure).attribute attr) =
      (wireCodec rawMessage text mapstructure).attribute attr := by
  simp only [Codec.attribute, wireCodec, hybridValue_stable hraw, sent_map_sent hms hmeta]

theorem attributes_received (codec : Codec) (p : PostedElement) :
    (p.received codec).attributes = p.element.attributes.map codec.attribute := by
  unfold PostedElement.received PostedElement.transferred
  split_ifs <;> rfl

theorem metadata_received (codec : Codec) (p : PostedElement) :
    (p.received codec).metadata =
      if p.isOrion then [] else p.element.metadata.map codec.metadata := by
  unfold PostedElement.received PostedElement.transferred
  split_ifs <;> rfl

theorem type_received (codec : Codec) (p : PostedElement) : (p.received codec).type = "" := rfl

-- the element that has arrived is in the form that is sent whole
theorem received_forwarded (codec : Codec) (p : PostedElement) :
    (forwarded (p.received codec)).posted.received codec =
      { p.received codec with
        attributes := (p.received codec).attributes.map codec.attribute
        metadata := (p.received codec).metadata.map codec.metadata } := by
  have horion : (forwarded (p.received codec)).posted.isOrion = false := by
    simp [PostedElement.isOrion, forwarded, type_received]
  rw [PostedElement.received, PostedElement.transferred, if_neg (by simp [horion])]
  rfl

theorem received_received {p : PostedElement} (hms : MatchesFieldNames mapstructure)
    (h : Relayable rawMessage text p.element) :
    (forwarded (p.received (wireCodec rawMessage text mapstructure))).posted.received
        (wireCodec rawMessage text mapstructure) =
      p.received (wireCodec rawMessage text mapstructure) := by
  have hattributes : (p.received (wireCodec rawMessage text mapstructure)).attributes.map
      (wireCodec rawMessage text mapstructure).attribute =
        (p.received (wireCodec rawMessage text mapstructure)).attributes := by
    rw [attributes_received, List.map_map]
    exact List.map_congr_left (fun attr hattr =>
      attribute_attribute hms (h.verbatim attr hattr) (h.attributes attr hattr))
  have hmetadata : (p.received (wireCodec rawMessage text mapstructure)).metadata.map
      (wireCodec rawMessage text mapstructure).metadata =
        (p.received (wireCodec rawMessage text mapstructure)).metadata := by
    rw [metadata_received]
    split_ifs
    · rfl
    · exact sent_map_sent hms h.metadata
  rw [received_forwarded, hattributes, hmetadata]

theorem sendable_received {p : PostedElement} (hms : MatchesFieldNames mapstructure)
    (h : Relayable rawMessage text p.element) :
    Sendable rawMessage mapstructure (p.received (wireCodec rawMessage text mapstructure)) := by
  constructor
  · intro attr hattr m hm
    rw [attributes_received] at hattr
    obtain ⟨attr', hattr', rfl⟩ := List.mem_map.mp hattr
    exact sendable_of_matching hms (sent_map_settled hms (h.attributes attr' hattr') m hm)
  · intro m hm
    rw [metadata_received] at hm
    split_ifs at hm
    · cases hm
    · exact sendable_of_matching hms (sent_map_settled hms h.metadata m hm)

theorem relay_eq {elems : List WrittenElement}
    (h : ∀ w ∈ elems, Sendable rawMessage mapstructure w.posted.element)
    (text : Json → String) (subscriptionId : String) :
    relay rawMessage text mapstructure elems subscriptionId =
      .ok (elems.map (fun w =>
        forwarded (w.posted.received (wireCodec rawMessage text mapstructure)))) := by
  rw [relay, parse_notifyContextRequest h, ok_bind, List.map_map]
  rfl

theorem relay_settled {elems : List WrittenElement} (hms : MatchesFieldNames mapstructure)
    (h : ∀ w ∈ elems, Relayable rawMessage text w.posted.element) (subscriptionId : String) :
    relay rawMessage text mapstructure (elems.map (fun w =>
        forwarded (w.posted.received (wireCodec rawMessage text mapstructure)))) subscriptionId =
      .ok (elems.map (fun w =>
        forwarded (w.posted.received (wireCodec rawMessage text mapstructure)))) := by
  have hsendable : ∀ w ∈ elems.map (fun w =>
      forwarded (w.posted.received (wireCodec rawMessage text mapstructure))),
      Sendable rawMessage mapstructure w.posted.element := by
    intro w hw
    obtain ⟨w', hw', rfl⟩ := List.mem_map.mp hw
    exact sendable_received hms (h w' hw')
  rw [relay_eq hsendable, List.map_map]
  refine congrArg Except.ok (List.map_congr_left (fun w hw => ?_))
  exact congrArg forwarded (received_received hms (h w hw))

def textOf : Json → String
  | .string s => s
  | _ => ""

-- a room with the point it stands at
def roomAtPoint : WrittenElement :=
  ⟨⟨"", ⟨⟨"Room", false, "room1"⟩, "", [⟨"temperature", "string", .string "20", []⟩],
    [⟨"location", "point", .point ⟨49, 8⟩, .null⟩]⟩⟩, ""⟩

theorem relayable_roomAtPoint : Relayable Json.string textOf roomAtPoint.posted.element where
  verbatim := by
    intro attr hattr
    rw [List.mem_singleton.mp hattr]
    rfl
  attributes := by
    intro attr hattr m hm
    rw [List.mem_singleton.mp hattr] at hm
    cases hm
  metadata := by
    intro m hm
    rw [List.mem_singleton.mp hm]
    exact ⟨⟨49, 8⟩, rfl⟩

-- a metadata that a hop leaves as it is
def Exact (m : ContextMetadata) : Prop :=
  (∀ c, m.value = .circle c → c.latitude = 0 ∧ c.longitude = 0) ∧ IsJson m.cordinates

theorem settled_eq_iff {v : Value} :
    settled v = v ↔ ∀ c, v = .circle c → c.latitude = 0 ∧ c.longitude = 0 := by
  cases v with
  | circle c => simp [settled, decoded_circle_eq]
  | _ => simp [settled]

theorem sent_eq_iff {m : ContextMetadata} (hms : MatchesFieldNames mapstructure)
    (hm : m.Matching) : m.sent rawMessage mapstructure = m ↔ Exact m := by
  rw [sent_eq hms hm, Exact, ← settled_eq_iff, ← received_eq_iff rawMessage]
  obtain ⟨name, type, value, cordinates⟩ := m
  simp

theorem map_eq_self_iff {α : Type} {f : α → α} {xs : List α} :
    xs.map f = xs ↔ ∀ x ∈ xs, f x = x := by
  induction xs with
  | nil => simp
  | cons x xs ih => rw [List.map_cons, List.cons.injEq, ih, List.forall_mem_cons]

theorem sent_map_eq_iff {ms : List ContextMetadata} (rawMessage : String → Json)
    (hms : MatchesFieldNames mapstructure) (h : ∀ m ∈ ms, m.Matching) :
    ms.map (ContextMetadata.sent rawMessage mapstructure) = ms ↔ ∀ m ∈ ms, Exact m :=
  map_eq_self_iff.trans (forall₂_congr (fun m hm => sent_eq_iff hms (h m hm)))

theorem attribute_eq_iff {attr : ContextAttribute} (hms : MatchesFieldNames mapstructure)
    (h : ∀ m ∈ attr.metadata, m.Matching) :
    (wireCodec rawMessage text mapstructure).attribute attr = attr ↔
      Fits rawMessage text attr.type attr.value ∧ ∀ m ∈ attr.metadata, Exact m := by
  rw [← hybridValue_eq_iff, ← sent_map_eq_iff rawMessage hms h]
  obtain ⟨name, type, value, metadata⟩ := attr
  simp [Codec.attribute, wireCodec]

-- the holder shows the entity whole, and each part of it is one that a hop leaves as it is
structure Unaltered (rawMessage : String → Json) (text : Json → String)
    (attributes : List String) (p : PostedElement) : Prop where
  selection : (p.selected attributes).attributes = p.element.attributes
  values : ∀ attr ∈ p.element.attributes, Fits rawMessage text attr.type attr.value
  attributeMetadata : ∀ attr ∈ p.element.attributes, ∀ m ∈ attr.metadata, Exact m
  metadata : p.isOrion = false → ∀ m ∈ p.element.metadata, Exact m
  orion : p.isOrion = true → p.element.entity = ⟨"", false, ""⟩ ∧ p.element.metadata = []

theorem whole_iff {attributes : List String} {p : PostedElement}
    (hms : MatchesFieldNames mapstructure) (h : Relayable rawMessage text p.element) :
    QueryContext.Whole (wireCodec rawMessage text mapstructure) attributes p ↔
      Unaltered rawMessage text attributes p := by
  have hvalues : p.element.attributes.map (wireCodec rawMessage text mapstructure).attribute =
      p.element.attributes ↔ ∀ attr ∈ p.element.attributes,
        Fits rawMessage text attr.type attr.value ∧ ∀ m ∈ attr.metadata, Exact m :=
    map_eq_self_iff.trans
      (forall₂_congr (fun attr hattr => attribute_eq_iff hms (h.attributes attr hattr)))
  have hmetadata := sent_map_eq_iff rawMessage hms h.metadata
  constructor
  · intro hw
    have hattrs := hvalues.mp hw.values
    exact ⟨hw.selection, fun attr hattr => (hattrs attr hattr).1,
      fun attr hattr => (hattrs attr hattr).2, fun hform => hmetadata.mp (hw.metadata hform),
      hw.orion⟩
  · intro hu
    have hattrs := hvalues.mpr
      (fun attr hattr => ⟨hu.values attr hattr, hu.attributeMetadata attr hattr⟩)
    exact ⟨hu.selection, hattrs, fun hform => hmetadata.mpr (hu.metadata hform), hu.orion⟩

-- the value of a boolean property does not go with the type that the property is stored under
example : hybridValue Json.string textOf "object" (.bool true) = .null := by rfl

end FogFlow.Broker.Relay
