import FogFlow.Library.Named
import FogFlow.Ngsi.Context

namespace FogFlow.Broker

open Ngsi Named

abbrev Entities := GoMap ContextElement

def isNewAttribute (name : String) (ctxElement : ContextElement) : Bool :=
  !ctxElement.attributes.any (fun attr => attr.name == name)

-- a decoded value has its object fields in one order, so DeepEqual is equality
def hasMetadataChange (curMetadata : ContextMetadata) (ctxElement : ContextElement) : Bool :=
  !ctxElement.metadata.any (fun metadata =>
    metadata.name == curMetadata.name && metadata.value == curMetadata.value)

def hasUpdatedMetadata (recvElement : ContextElement) : Option ContextElement → Bool
  | none => true
  | some curElement =>
      recvElement.attributes.any (fun attr => isNewAttribute attr.name curElement) ||
        recvElement.metadata.any (fun metadata => hasMetadataChange metadata curElement)

def updateAttributes (currentAttributes newAttributes : List ContextAttribute) :
    List ContextAttribute :=
  currentAttributes.filter (fun attr =>
    !newAttributes.any (fun newAttribute => newAttribute.name == attr.name)) ++ newAttributes

def takeValue (pCurMetadata metadata : ContextMetadata) : ContextMetadata :=
  { pCurMetadata with value := metadata.value }

theorem takeValue_name (a b : ContextMetadata) : (takeValue a b).name = a.name := rfl

theorem takeValue_takeValue (a b c : ContextMetadata) :
    takeValue (takeValue a b) c = takeValue a c := rfl

theorem takeValue_self (a : ContextMetadata) : takeValue a a = a := rfl

def updateDomainMetadata (metadata : ContextMetadata) (current : List ContextMetadata) :
    List ContextMetadata :=
  upsert ContextMetadata.name takeValue metadata current

def applyUpdate (curElement ctxElem : ContextElement) : ContextElement :=
  { curElement with
    attributes := updateAttributes curElement.attributes ctxElem.attributes
    metadata := ctxElem.metadata.foldl (fun current metadata =>
      updateDomainMetadata metadata current) curElement.metadata }

def updateContextElement (entities : Entities) (ctxElem : ContextElement) : Entities :=
  match entities.get ctxElem.entity.id with
  | some curElement => entities.set ctxElem.entity.id (applyUpdate curElement ctxElem)
  | none => entities.set ctxElem.entity.id ctxElem

theorem get_updateContextElement (entities : Entities) (ctxElem : ContextElement) (eid : String) :
    (updateContextElement entities ctxElem).get eid =
      if eid = ctxElem.entity.id then
        some (((entities.get ctxElem.entity.id).map (applyUpdate · ctxElem)).getD ctxElem)
      else entities.get eid := by
  unfold updateContextElement
  cases entities.get ctxElem.entity.id <;> simp [GoMap.get_set]

theorem mem_names_updateAttributes {current new : List ContextAttribute} {n : String} :
    (∃ a ∈ updateAttributes current new, a.name = n) ↔
      (∃ a ∈ current, a.name = n) ∨ ∃ a ∈ new, a.name = n := by
  simp only [updateAttributes, List.mem_append, List.mem_filter]
  constructor
  · rintro ⟨a, ⟨ha, -⟩ | ha, rfl⟩
    · exact Or.inl ⟨a, ha, rfl⟩
    · exact Or.inr ⟨a, ha, rfl⟩
  · rintro (⟨a, ha, rfl⟩ | ⟨a, ha, rfl⟩)
    · by_cases hn : ∃ b ∈ new, b.name = a.name
      · obtain ⟨b, hb, hname⟩ := hn
        exact ⟨b, Or.inr hb, hname⟩
      · push Not at hn
        exact ⟨a, Or.inl ⟨ha, by simpa using hn⟩, rfl⟩
    · exact ⟨a, Or.inr ha, rfl⟩

-- the stored entries of a domain metadata name
def entriesOf (n : String) (metadata : List ContextMetadata) : List ContextMetadata :=
  named ContextMetadata.name n metadata

def lastOf (n : String) (metadata : List ContextMetadata) : Option ContextMetadata :=
  (entriesOf n metadata).getLast?

theorem entriesOf_applyUpdate_absent (cur : ContextElement) {recv : ContextElement} {n : String}
    (h : lastOf n recv.metadata = none) :
    entriesOf n (applyUpdate cur recv).metadata = entriesOf n cur.metadata :=
  named_foldl_upsert_nil takeValue_name (List.getLast?_eq_none_iff.mp h)

theorem entriesOf_applyUpdate (cur : ContextElement) {recv : ContextElement} {n : String}
    {last : ContextMetadata} (h : lastOf n recv.metadata = some last) :
    ∃ first, (entriesOf n cur.metadata ++ entriesOf n recv.metadata).head? = some first ∧
      entriesOf n (applyUpdate cur recv).metadata =
        takeValue first last :: (entriesOf n cur.metadata).tail :=
  named_foldl_upsert takeValue_name takeValue_takeValue takeValue_self h

-- an update that changes nothing finds each of its names and metadata values stored
theorem hasUpdatedMetadata_eq_false_iff {recv cur : ContextElement} :
    hasUpdatedMetadata recv (some cur) = false ↔
      (∀ a ∈ recv.attributes, ∃ b ∈ cur.attributes, b.name = a.name) ∧
        ∀ m ∈ recv.metadata, ∃ c ∈ entriesOf m.name cur.metadata, c.value = m.value := by
  simp [hasUpdatedMetadata, isNewAttribute, hasMetadataChange, entriesOf, mem_named, and_assoc]

theorem mem_names_applyUpdate_of_unchanged {recv cur : ContextElement}
    (hsame : hasUpdatedMetadata recv (some cur) = false) (n : String) :
    (∃ a ∈ (applyUpdate cur recv).attributes, a.name = n) ↔ ∃ a ∈ cur.attributes, a.name = n := by
  have hattrs := (hasUpdatedMetadata_eq_false_iff.mp hsame).1
  constructor
  · intro h
    rcases mem_names_updateAttributes.mp h with hcur | ⟨a, ha, rfl⟩
    · exact hcur
    · exact hattrs a ha
  · intro h
    exact mem_names_updateAttributes.mpr (Or.inl h)

theorem metadata_applyUpdate_of_unchanged {recv cur : ContextElement}
    (hnames : (cur.metadata.map ContextMetadata.name).Nodup)
    (hsame : hasUpdatedMetadata recv (some cur) = false) :
    (applyUpdate cur recv).metadata = cur.metadata := by
  refine foldl_upsert_eq_self hnames (fun m hm => ?_)
  obtain ⟨c, hc, hvalue⟩ := (hasUpdatedMetadata_eq_false_iff.mp hsame).2 m hm
  obtain ⟨hmem, hname⟩ := mem_named.mp hc
  refine ⟨c, hmem, hname, ?_⟩
  rw [takeValue, ← hvalue]

theorem skipped_registration_loses_nothing {entities : Entities} {recv cur : ContextElement}
    (hcur : entities.get recv.entity.id = some cur)
    (hnames : (cur.metadata.map ContextMetadata.name).Nodup)
    (hsame : hasUpdatedMetadata recv (some cur) = false) :
    ∃ stored, (updateContextElement entities recv).get recv.entity.id = some stored ∧
      (∀ n, (∃ a ∈ stored.attributes, a.name = n) ↔ ∃ a ∈ cur.attributes, a.name = n) ∧
      stored.metadata = cur.metadata := by
  refine ⟨applyUpdate cur recv, ?_, mem_names_applyUpdate_of_unchanged hsame,
    metadata_applyUpdate_of_unchanged hnames hsame⟩
  rw [get_updateContextElement, if_pos rfl, hcur]
  rfl

def romanCar : ContextElement where
  entity := ⟨"Car", false, "Car.1"⟩
  type := ""
  attributes := [⟨"speed", "float", .string "8", []⟩]
  metadata := [⟨"city", "string", .string "Rome", .null⟩]

def repeatingCar : ContextElement where
  entity := ⟨"", false, "Car.1"⟩
  type := ""
  attributes := [⟨"speed", "float", .string "9", []⟩, ⟨"speed", "", .null, []⟩]
  metadata := [⟨"city", "string", .string "Rome", .null⟩, ⟨"city", "text", .string "Rome", .null⟩]

theorem skipped_registration_repeated_names :
    ∃ stored, (updateContextElement ((∅ : Entities).set "Car.1" romanCar) repeatingCar).get
        "Car.1" = some stored ∧
      (∀ n, (∃ a ∈ stored.attributes, a.name = n) ↔ ∃ a ∈ romanCar.attributes, a.name = n) ∧
      stored.metadata = romanCar.metadata :=
  @skipped_registration_loses_nothing _ repeatingCar _ (GoMap.get_set_self _ _ _) (by decide) (by decide)

end FogFlow.Broker
