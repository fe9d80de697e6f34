import FogFlow.Broker.NgsiV2Payload
import Mathlib.Data.List.Perm.Basic

namespace FogFlow.Broker

open Ngsi Fields Loop

variable {rawMessage : String → Json}

def withoutCordinates (m : ContextMetadata) : ContextMetadata := { m with cordinates := .null }

theorem unmarshal_object (members : List (String × Json)) :
    ∃ fields, unmarshal (.object members) = .object fields ∧
      ∀ k, (ofFields fields).get k = (ofFields (unmarshalMembers members)).get k :=
  ⟨_, rfl, fun k => get_ofFields_canonical _ k⟩

theorem readMetadataV2_sent {mtd : ContextMetadata} (h : IsJson mtd.value) :
    readMetadataV2
        ⟨mtd.name, unmarshal (OrionV2Metadata.toJson rawMessage ⟨mtd.type, mtd.value⟩)⟩ =
      .ok (withoutCordinates mtd) := by
  have hvalue : unmarshal (marshal rawMessage mtd.value) = mtd.value := h.received_eq
  obtain ⟨fields, hfields, hget⟩ := unmarshal_object
    [("type", .string mtd.type), ("value", marshal rawMessage mtd.value)]
  have htype : valueAt (ofFields fields) "type" = .string mtd.type := by
    rw [valueAt, hget]
    rfl
  have hval : valueAt (ofFields fields) "value" = mtd.value := by
    rw [valueAt, hget]
    simpa [unmarshalMembers, ofFields, GoMap.get_set] using hvalue
  rw [readMetadataV2, OrionV2Metadata.toJson, hfields, asMap, ok_bind, htype, hval]
  rfl

-- a loop over the decoded map meets what was written, in some order
theorem range_decoded {α W : Type} (f : W → Json) (key : α → String) (val : α → W) {xs : List α}
    (hnd : (xs.map key).Nodup) {m : GoMap Value}
    (hm : ∀ k, m.get k = ((ofFields (xs.map (fun x => (key x, val x)))).get k).map
      (fun w => unmarshal (f w))) (rank : String → Nat) :
    ∃ sent : List α, sent.Perm xs ∧
      m.range rank = sent.map (fun x => ⟨key x, unmarshal (f (val x))⟩) := by
  have hfields : mapSnd (fun w => unmarshal (f w)) (xs.map (fun x => (key x, val x))) =
      xs.map (fun x => (key x, unmarshal (f (val x)))) := by
    simp [mapSnd]
  have hkeys : ((xs.map (fun x => (key x, unmarshal (f (val x))))).map Prod.fst).Nodup := by
    simpa [Function.comp_def] using hnd
  have hperm := range_perm_fields hkeys
    (fun k => by rw [hm, ← get_ofFields_mapSnd, hfields]) rank
  rw [List.map_map] at hperm
  let entry : α → GoMap.Entry Value := fun x => ⟨key x, unmarshal (f (val x))⟩
  have hcomp : Relation.Comp (fun l l' => l = l'.map entry) List.Perm (m.range rank) xs := by
    rw [List.eq_map_comp_perm]
    exact hperm
  obtain ⟨sent, hrange, hsent⟩ := hcomp
  exact ⟨sent, hsent, hrange⟩

theorem entries_nil_iff {attr : ContextAttribute} :
    (toAttributeV2 attr).metadata.entries = [] ↔ attr.metadata = [] := by
  rw [toAttributeV2, entries_ofFields_eq_nil, List.map_eq_nil_iff]

theorem readAttributeMetadata_sent {attr : ContextAttribute} {m : GoMap Value}
    (hnd : (attr.metadata.map ContextMetadata.name).Nodup)
    (hjson : ∀ mtd ∈ attr.metadata, IsJson mtd.value) (rank : String → Nat)
    (hm : m.get "metadata" =
      if (toAttributeV2 attr).metadata.entries.isEmpty then none
      else some (unmarshal (.object (mapSnd (OrionV2Metadata.toJson rawMessage)
        (toFields (toAttributeV2 attr).metadata))))) :
    ∃ mtds, readAttributeMetadata rank m = .ok mtds ∧
      mtds.Perm (attr.metadata.map withoutCordinates) := by
  simp only [List.isEmpty_iff, entries_nil_iff] at hm
  split_ifs at hm with hempty
  · refine ⟨[], ?_, ?_⟩
    · simp only [readAttributeMetadata, hm]
    · rw [hempty, List.map_nil]
  · obtain ⟨fields, hfields, hget⟩ := unmarshal_object
      (mapSnd (OrionV2Metadata.toJson rawMessage) (toFields (toAttributeV2 attr).metadata))
    obtain ⟨sent, hsent, hrange⟩ := range_decoded (OrionV2Metadata.toJson rawMessage)
      ContextMetadata.name (fun mtd => ⟨mtd.type, mtd.value⟩) hnd
      (fun k => by
        rw [hget, get_unmarshalMembers, get_ofFields_toFields]
        rfl) rank
    refine ⟨sent.map withoutCordinates, ?_, hsent.map _⟩
    have hread : (sent.map (fun mtd => (⟨mtd.name, unmarshal (OrionV2Metadata.toJson rawMessage
        ⟨mtd.type, mtd.value⟩)⟩ : GoMap.Entry Value))).mapM readMetadataV2 =
        .ok (sent.map withoutCordinates) := by
      rw [List.mapM_map]
      exact mapM_eq_ok (fun mtd hmtd => readMetadataV2_sent (hjson mtd (hsent.mem_iff.mp hmtd)))
    simp only [readAttributeMetadata, hm, hfields, asMap, ok_bind, hrange, hread]

structure ConveyedV2 (attr : ContextAttribute) : Prop where
  value : IsJson attr.value
  metadata : ∀ mtd ∈ attr.metadata, IsJson mtd.value
  names : (attr.metadata.map ContextMetadata.name).Nodup

def Reordered (attr attr' : ContextAttribute) : Prop :=
  attr'.name = attr.name ∧ attr'.type = attr.type ∧ attr'.value = attr.value ∧
    attr'.metadata.Perm attr.metadata

-- the format has no member for the coordinates of a metadata
def SameV2 (attr attr' : ContextAttribute) : Prop :=
  Reordered { attr with metadata := attr.metadata.map withoutCordinates } attr'

theorem readAttributeV2_sent (rawMessage : String → Json) {attr : ContextAttribute}
    (h : ConveyedV2 attr) (rank : String → Nat) :
    ∃ fields attr', unmarshal ((toAttributeV2 attr).toJson rawMessage) = .object fields ∧
      readAttributeV2 rank attr.name (ofFields fields) = .ok attr' ∧ SameV2 attr attr' := by
  have hvalue : unmarshal (marshal rawMessage attr.value) = attr.value := h.value.received_eq
  obtain ⟨fields, hfields, hget⟩ := unmarshal_object
    ([("type", .string attr.type), ("value", marshal rawMessage attr.value)] ++
      if (toAttributeV2 attr).metadata.entries.isEmpty then []
      else [("metadata", .object (mapSnd (OrionV2Metadata.toJson rawMessage)
        (toFields (toAttributeV2 attr).metadata)))])
  have htype : valueAt (ofFields fields) "type" = .string attr.type := by
    rw [valueAt, hget]
    split_ifs <;> rfl
  have hval : valueAt (ofFields fields) "value" = attr.value := by
    rw [valueAt, hget]
    split_ifs <;> simpa [unmarshalMembers, ofFields, GoMap.get_set] using hvalue
  have hmetadata : (ofFields fields).get "metadata" =
      if (toAttributeV2 attr).metadata.entries.isEmpty then none
      else some (unmarshal (.object (mapSnd (OrionV2Metadata.toJson rawMessage)
        (toFields (toAttributeV2 attr).metadata)))) := by
    rw [hget]
    split_ifs <;> rfl
  obtain ⟨mtds, hmtds, hperm⟩ := readAttributeMetadata_sent h.names h.metadata rank hmetadata
  refine ⟨fields, ⟨attr.name, attr.type, attr.value, mtds⟩, hfields, ?_, rfl, rfl, rfl, hperm⟩
  rw [readAttributeV2, htype, hval, asString, ok_bind, hmtds, ok_bind]

-- what the converter writes into the map of an element
inductive ItemV2 where
  | id
  | type
  | attr (a : ContextAttribute)

def ItemV2.key : ItemV2 → String
  | .id => "id"
  | .type => "type"
  | .attr a => a.name

def ItemV2.member (entity : EntityId) : ItemV2 → OrionV2Member
  | .id => .text entity.id
  | .type => .text entity.type
  | .attr a => .attr (toAttributeV2 a)

def ItemV2.attributes : ItemV2 → List ContextAttribute
  | .attr a => [a]
  | _ => []

def ItemV2.entry (rawMessage : String → Json) (entity : EntityId) (item : ItemV2) :
    GoMap.Entry Value :=
  ⟨item.key, unmarshal ((item.member entity).toJson rawMessage)⟩

structure ConveyedElementV2 (elem : ContextElement) : Prop where
  nonPattern : elem.entity.isPattern = false
  noMetadata : elem.metadata = []
  names : (elem.attributes.map ContextAttribute.name).Nodup
  free : ∀ attr ∈ elem.attributes, toLower attr.name ∉ ["id", "type", "location"]
  attributes : ∀ attr ∈ elem.attributes, ConveyedV2 attr

def ItemV2.Conveyed : ItemV2 → Prop
  | .attr a => ConveyedV2 a ∧ toLower a.name ∉ ["id", "type", "location"]
  | _ => True

structure ReadV2 (entity : EntityId) (items : List ItemV2) (ce : ContextElement) : Prop where
  id : .id ∈ items → ce.entity.id = entity.id
  type : .type ∈ items → ce.entity.type = entity.type
  isPattern : ce.entity.isPattern = false
  metadata : ce.metadata = []
  attributes : List.Forall₂ SameV2 (items.flatMap ItemV2.attributes) ce.attributes

theorem readEntryV2_sent {entity : EntityId} {items : List ItemV2} {item : ItemV2}
    {ce : ContextElement} (orders : OrdersV2) (hitem : item.Conveyed)
    (h : ReadV2 entity items ce) :
    ∃ ce', readEntryV2 orders ce (item.entry rawMessage entity) = .ok ce' ∧
      ReadV2 entity (items ++ [item]) ce' := by
  cases item with
  | id =>
    have hlower : toLower "id" = "id" := by decide
    refine ⟨{ ce with entity := { ce.entity with id := entity.id } }, ?_, ?_⟩
    · simp only [readEntryV2, ItemV2.entry, ItemV2.key, hlower]
      rfl
    · exact ⟨fun _ => rfl, fun ht => h.type (by simpa using ht), h.isPattern, h.metadata,
        by simpa [ItemV2.attributes] using h.attributes⟩
  | type =>
    have hlower : toLower "type" = "type" := by decide
    refine ⟨{ ce with entity := { ce.entity with type := entity.type } }, ?_, ?_⟩
    · simp only [readEntryV2, ItemV2.entry, ItemV2.key, hlower]
      rfl
    · exact ⟨fun hi => h.id (by simpa using hi), fun _ => rfl, h.isPattern, h.metadata,
        by simpa [ItemV2.attributes] using h.attributes⟩
  | attr a =>
    obtain ⟨hconveyed, hfree⟩ := hitem
    obtain ⟨fields, a', hfields, hread, hsame⟩ :=
      readAttributeV2_sent rawMessage hconveyed (orders.metadata a.name)
    have hid : toLower a.name ≠ "id" := fun he => hfree (by simp [he])
    have htype : toLower a.name ≠ "type" := fun he => hfree (by simp [he])
    have hlocation : toLower a.name ≠ "location" := fun he => hfree (by simp [he])
    refine ⟨{ ce with attributes := ce.attributes ++ [a'], metadata := ce.metadata ++ [] }, ?_, ?_⟩
    · simp only [ItemV2.entry, ItemV2.key, ItemV2.member, OrionV2Member.toJson, hfields,
        readEntryV2]
      simp only [hread, ok_bind, if_neg hlocation]
    · refine ⟨fun hi => h.id (by simpa using hi), fun ht => h.type (by simpa using ht),
        h.isPattern, by simpa using h.metadata, ?_⟩
      rw [List.flatMap_append]
      exact List.rel_append h.attributes (.cons hsame .nil)

def itemsV2 (elem : ContextElement) : List ItemV2 :=
  .id :: .type :: elem.attributes.map .attr

theorem attributes_items (attrs : List ContextAttribute) :
    (attrs.map ItemV2.attr).flatMap ItemV2.attributes = attrs := by
  simp [List.flatMap_map, ItemV2.attributes]

theorem toElementV2_items {elem : ContextElement} (h : elem.metadata = []) :
    toElementV2 elem =
      ofFields ((itemsV2 elem).map (fun item => (item.key, item.member elem.entity))) := by
  rw [toElementV2, h, itemsV2, ofFields, List.foldl_map, List.foldl_cons, List.foldl_cons,
    List.foldl_map]
  rfl

theorem keys_items_nodup {elem : ContextElement} (h : ConveyedElementV2 elem) :
    ((itemsV2 elem).map ItemV2.key).Nodup := by
  have hne : ∀ k, toLower k = k → k ∈ ["id", "type", "location"] →
      k ∉ elem.attributes.map ContextAttribute.name := by
    intro k hlower hk hmem
    obtain ⟨a, ha, rfl⟩ := List.mem_map.mp hmem
    exact h.free a ha (by rwa [hlower])
  have hkeys : (itemsV2 elem).map ItemV2.key =
      "id" :: "type" :: elem.attributes.map ContextAttribute.name := by
    simp [itemsV2, ItemV2.key]
  rw [hkeys, List.nodup_cons, List.nodup_cons, List.mem_cons, not_or]
  exact ⟨⟨by decide, hne "id" (by decide) (by simp)⟩, hne "type" (by decide) (by simp), h.names⟩

theorem conveyed_items {elem : ContextElement} (h : ConveyedElementV2 elem) :
    ∀ item ∈ itemsV2 elem, item.Conveyed := by
  intro item hitem
  simp only [itemsV2, List.mem_cons, List.mem_map] at hitem
  rcases hitem with rfl | rfl | ⟨a, ha, rfl⟩
  · trivial
  · trivial
  · exact ⟨h.attributes a ha, h.free a ha⟩

theorem read_toElementV2 (rawMessage : String → Json) (orders : OrdersV2) {elem : ContextElement}
    (h : ConveyedElementV2 elem) :
    ∃ m elem', unmarshalMap (elementJson rawMessage (toElementV2 elem)) = some m ∧
      ContextElement.zero.readFromNGSIv2 orders m = .ok (true, elem') ∧
      elem'.entity = elem.entity ∧ elem'.metadata = [] ∧
      ∃ sent : List ContextAttribute, sent.Perm elem.attributes ∧
        List.Forall₂ SameV2 sent elem'.attributes := by
  let m : GoMap Value := ofFields (unmarshalMembers (mapSnd (OrionV2Member.toJson rawMessage)
    (toFields (toElementV2 elem))))
  have hget : ∀ k, m.get k =
      ((ofFields ((itemsV2 elem).map (fun item => (item.key, item.member elem.entity)))).get
        k).map (fun w => unmarshal (w.toJson rawMessage)) := by
    intro k
    rw [get_unmarshalMembers, get_ofFields_toFields, toElementV2_items h.noMetadata]
  obtain ⟨sent, hsent, hrange⟩ := range_decoded (OrionV2Member.toJson rawMessage) ItemV2.key
    (fun item => item.member elem.entity) (keys_items_nodup h) hget orders.entity
  have hpresent : ∀ item ∈ itemsV2 elem, (m.get item.key).isNone = false := by
    intro item hitem
    have hmem : item.entry rawMessage elem.entity ∈ m.range orders.entity := by
      rw [hrange]
      exact List.mem_map.mpr ⟨item, hsent.mem_iff.mpr hitem, rfl⟩
    rw [GoMap.mem_range.mp hmem]
    rfl
  have hloop : ∃ elem', sent.foldlM
      (fun ce item => readEntryV2 orders ce (item.entry rawMessage elem.entity))
        ContextElement.zero = .ok elem' ∧ ReadV2 elem.entity sent elem' :=
    foldlM_total (I := ReadV2 elem.entity) ⟨by simp, by simp, rfl, rfl, .nil⟩
      (fun done item rest ce hxs hce => by
        have hitem : item ∈ sent := by simp [hxs]
        exact readEntryV2_sent orders (conveyed_items h item (hsent.mem_iff.mp hitem)) hce)
  obtain ⟨elem', hread, hread'⟩ := hloop
  have hentity : elem'.entity = elem.entity := by
    have hid := hread'.id (hsent.mem_iff.mpr (by simp [itemsV2]))
    have htype := hread'.type (hsent.mem_iff.mpr (by simp [itemsV2]))
    have hpattern := hread'.isPattern.trans h.nonPattern.symm
    cases hl : elem'.entity
    cases hr : elem.entity
    simp_all
  refine ⟨m, elem', rfl, ?_, hentity, hread'.metadata, sent.flatMap ItemV2.attributes, ?_,
    hread'.attributes⟩
  · have hid := hpresent .id (by simp [itemsV2])
    have htype := hpresent .type (by simp [itemsV2])
    simp only [ItemV2.key] at hid htype
    rw [ContextElement.readFromNGSIv2, hid, htype, hrange, List.foldlM_map]
    exact bind_eq_ok.mpr ⟨elem', hread, rfl⟩
  · refine (hsent.flatMap_right _).trans (.of_eq ?_)
    rw [itemsV2, List.flatMap_cons, List.flatMap_cons, attributes_items]
    rfl

theorem readFromNGSIv2_toNGSIv2Payload (rawMessage : String → Json) (orders : OrdersV2)
    {elem : ContextElement} (h : ConveyedElementV2 elem) :
    ∃ element m elem', toNGSIv2Payload [elem] = [element] ∧
      unmarshalMap (elementJson rawMessage element) = some m ∧
      ContextElement.zero.readFromNGSIv2 orders m = .ok (true, elem') ∧
      elem'.entity = elem.entity ∧ elem'.metadata = elem.metadata ∧
      ∃ sent : List ContextAttribute, sent.Perm elem.attributes ∧
        List.Forall₂ SameV2 sent elem'.attributes := by
  obtain ⟨m, elem', hm, hread, hentity, hmetadata, hsent⟩ := read_toElementV2 rawMessage orders h
  exact ⟨toElementV2 elem, m, elem', rfl, hm, hread, hentity, by rw [hmetadata, h.noMetadata],
    hsent⟩

def measuredCar : ContextElement :=
  ⟨⟨"Car", false, "car1"⟩, "", [⟨"speed", "float", .number 50,
    [⟨"accuracy", "float", .number 1, .string "front"⟩]⟩], []⟩

theorem conveyed_measuredCar : ConveyedElementV2 measuredCar := by
  refine ⟨rfl, rfl, by decide, by decide, fun attr hattr => ?_⟩
  obtain rfl := List.mem_singleton.mp hattr
  refine ⟨⟨.number 50, rfl⟩, fun mtd hmtd => ?_, by decide⟩
  obtain rfl := List.mem_singleton.mp hmtd
  exact ⟨.number 1, rfl⟩

theorem measuredCar_read_back :
    ConveyedElementV2 measuredCar ∧ ∃ element m elem',
      toNGSIv2Payload [measuredCar] = [element] ∧
      unmarshalMap (elementJson .string element) = some m ∧
      ContextElement.zero.readFromNGSIv2 ⟨fun _ => 0, fun _ _ => 0⟩ m = .ok (true, elem') ∧
      elem'.entity = measuredCar.entity ∧ elem'.metadata = measuredCar.metadata ∧
      ∃ sent : List ContextAttribute, sent.Perm measuredCar.attributes ∧
        List.Forall₂ SameV2 sent elem'.attributes :=
  ⟨conveyed_measuredCar, readFromNGSIv2_toNGSIv2Payload .string ⟨fun _ => 0, fun _ _ => 0⟩
    conveyed_measuredCar⟩

-- the accuracy comes back without the place it was measured at
theorem cordinates_lost :
    ConveyedElementV2 measuredCar ∧ ∃ m elem',
      unmarshalMap (elementJson .string (toElementV2 measuredCar)) = some m ∧
      ContextElement.zero.readFromNGSIv2 ⟨fun _ => 0, fun _ _ => 0⟩ m = .ok (true, elem') ∧
      ¬ ∃ sent : List ContextAttribute, sent.Perm measuredCar.attributes ∧
        List.Forall₂ Reordered sent elem'.attributes := by
  refine ⟨conveyed_measuredCar, ?_⟩
  obtain ⟨m, elem', hm, hread, -, -, sent, hsent, hsame⟩ :=
    read_toElementV2 .string ⟨fun _ => 0, fun _ _ => 0⟩ conveyed_measuredCar
  refine ⟨m, elem', hm, hread, ?_⟩
  rintro ⟨sent', hsent', hsame'⟩
  obtain rfl := List.perm_singleton.mp hsent
  obtain rfl := List.perm_singleton.mp hsent'
  obtain ⟨attr', rest, ⟨-, -, -, hmetadata⟩, -, heq⟩ := List.forall₂_cons_left_iff.mp hsame
  rw [heq, List.forall₂_cons] at hsame'
  have hperm := hmetadata.symm.trans hsame'.1.2.2.2
  have hlost := List.perm_singleton.mp hperm
  simp [withoutCordinates] at hlost

end FogFlow.Broker
