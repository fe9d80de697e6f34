import FogFlow.Library.Named
import FogFlow.Ngsi.ReadNgsiLd

namespace FogFlow.Broker

open Ngsi Fields Loop Named

def ngsildCoreContext : String := "https://uri.etsi.org/ngsi-ld/v1/ngsi-ld-core-context.jsonld"

def hasPrefix (s start : String) : Bool := start.toList.isPrefixOf s.toList

def entityIdLD (id : String) : String :=
  if hasPrefix id "urn:" || hasPrefix id "URN:" then id else "urn:ngsi-ld:" ++ id

def setMetadata (propertyValue : GoMap Value) (metadata : List ContextMetadata) : GoMap Value :=
  metadata.foldl (fun propertyValue m => propertyValue.set m.name m.value) propertyValue

def typed (typeName key : String) (value : Value) : GoMap Value :=
  ((∅ : GoMap Value).set "type" (.string typeName)).set key value

def datetimeValue (value : Value) : GoMap Value :=
  ((∅ : GoMap Value).set "@type" (.string "datetime")).set "@value" value

-- the default case writes the metadata twice
def propertyValue (attr : ContextAttribute) : GoMap Value :=
  let propertyValue :=
    match toLower attr.type with
    | "relationship" => typed "Relationship" "object" attr.value
    | "datetime" => typed "Property" "value" (ofMap (datetimeValue attr.value))
    | _ => setMetadata (typed "Property" "value" attr.value) attr.metadata
  if attr.metadata.length > 0 then setMetadata propertyValue attr.metadata else propertyValue

def putAttribute (elementLD : GoMap Value) (attr : ContextAttribute) : GoMap Value :=
  if attr.name = "" ∨ attr.type = "" ∨ attr.value = .null then elementLD
  else
    match elementLD.get attr.name with
    | some (.array existingSlice) =>
        elementLD.set attr.name (.array (existingSlice ++ [ofMap (propertyValue attr)]))
    | some existingValue =>
        elementLD.set attr.name (.array [existingValue, ofMap (propertyValue attr)])
    | none => elementLD.set attr.name (ofMap (propertyValue attr))

def pointLocation (location : Point) : GoMap Value :=
  typed "Point" "coordinates" (.array [.number location.longitude, .number location.latitude])

def domainProperty (domainMeta : ContextMetadata) : Except Fault (GoMap Value) :=
  if domainMeta.type = "point" then
    match domainMeta.value with
    | .point location => .ok (typed "GeoProperty" "value" (ofMap (pointLocation location)))
    | _ => .error .typeAssertion
  else .ok (typed "Property" "value" domainMeta.value)

def putMetadata (elementLD : GoMap Value) (domainMeta : ContextMetadata) :
    Except Fault (GoMap Value) :=
  if domainMeta.name = "" ∨ domainMeta.type = "" ∨ domainMeta.value = .null then .ok elementLD
  else do
    let propertyValue ← domainProperty domainMeta
    .ok (elementLD.set domainMeta.name (ofMap propertyValue))

def entityLD (addAtContext : Bool) (entity : EntityId) : GoMap Value :=
  let elementLD := ((∅ : GoMap Value).set "id" (.string (entityIdLD entity.id))).set "type"
    (.string entity.type)
  if addAtContext then elementLD.set "@context" (.string ngsildCoreContext) else elementLD

def toElementLD (addAtContext : Bool) (elem : ContextElement) : Except Fault (GoMap Value) :=
  elem.metadata.foldlM putMetadata
    (elem.attributes.foldl putAttribute (entityLD addAtContext elem.entity))

def toNGSILDPayload (ctxElems : List ContextElement) (addAtContext : Bool) :
    Except Fault (List (GoMap Value)) :=
  ctxElems.mapM (toElementLD addAtContext)

theorem get_typed (typeName key : String) (value : Value) (k : String) :
    (typed typeName key value).get k =
      if k = key then some value else if k = "type" then some (.string typeName) else none := by
  simp only [typed, GoMap.get_set, GoMap.get_empty]

@[simp] theorem valueAt_typed (typeName key : String) (value : Value) :
    valueAt (typed typeName key value) key = value := by
  rw [valueAt, get_typed, if_pos rfl]
  rfl

theorem valueAt_typed_type {typeName key : String} {value : Value} (h : key ≠ "type") :
    valueAt (typed typeName key value) "type" = .string typeName := by
  rw [valueAt, get_typed, if_neg (Ne.symm h), if_pos rfl]
  rfl

-- the part of the property that the metadata are written into
def bareProperty (attr : ContextAttribute) : GoMap Value :=
  match toLower attr.type with
  | "relationship" => typed "Relationship" "object" attr.value
  | "datetime" => typed "Property" "value" (ofMap (datetimeValue attr.value))
  | _ => typed "Property" "value" attr.value

theorem bareProperty_relationship {attr : ContextAttribute}
    (h : toLower attr.type = "relationship") :
    bareProperty attr = typed "Relationship" "object" attr.value := by
  simp only [bareProperty, h]

theorem bareProperty_plain {attr : ContextAttribute}
    (h : toLower attr.type ∉ ["relationship", "datetime"]) :
    bareProperty attr = typed "Property" "value" attr.value := by
  rw [List.mem_cons, List.mem_singleton, not_or] at h
  unfold bareProperty
  split
  · exact absurd ‹_› h.1
  · exact absurd ‹_› h.2
  · rfl

theorem get_setMetadata (m : GoMap Value) (metadata : List ContextMetadata) (k : String) :
    (setMetadata m metadata).get k =
      ((named ContextMetadata.name k metadata).getLast?.map ContextMetadata.value).or (m.get k) :=
  get_foldl_set_val ContextMetadata.name ContextMetadata.value m metadata

theorem get_propertyValue (attr : ContextAttribute) (k : String) :
    (propertyValue attr).get k =
      ((named ContextMetadata.name k attr.metadata).getLast?.map ContextMetadata.value).or
        ((bareProperty attr).get k) := by
  have hset : ∀ m : GoMap Value,
      (if attr.metadata.length > 0 then setMetadata m attr.metadata else m) =
        setMetadata m attr.metadata := by
    intro m
    cases attr.metadata <;> simp [setMetadata]
  unfold propertyValue bareProperty
  simp only [hset, get_setMetadata]
  split
  · rfl
  · rfl
  · rw [get_setMetadata, ← Option.or_assoc, Option.or_self]

-- what the attributes of one name amount to: one property, or all of them in a slice
def bundle : List Value → Option Value
  | [] => none
  | [property] => some property
  | properties => some (.array properties)

def propertiesOf (attrs : List ContextAttribute) (k : String) : List Value :=
  (named ContextAttribute.name k attrs).map (fun attr => ofMap (propertyValue attr))

-- an attribute that the encoder does not skip
structure Sent (attr : ContextAttribute) : Prop where
  name : attr.name ≠ ""
  type : attr.type ≠ ""
  value : attr.value ≠ .null

def joined (existing : Option Value) (property : Value) : Value :=
  match existing with
  | some (.array existingSlice) => .array (existingSlice ++ [property])
  | some existingValue => .array [existingValue, property]
  | none => property

theorem bundle_eq_none {properties : List Value} : bundle properties = none ↔ properties = [] := by
  match properties with
  | [] => simp [bundle]
  | [_] => simp [bundle]
  | _ :: _ :: _ => simp [bundle]

theorem bundle_concat {properties : List Value} (h : ∀ v ∈ properties, ∃ m, v = ofMap m)
    (property : Value) :
    bundle (properties ++ [property]) = some (joined (bundle properties) property) := by
  match properties with
  | [] => rfl
  | [first] =>
    obtain ⟨m, rfl⟩ := h first (by simp)
    rfl
  | first :: second :: rest => rfl

theorem putAttribute_eq {attr : ContextAttribute} (h : Sent attr) (elementLD : GoMap Value) :
    putAttribute elementLD attr = elementLD.set attr.name
      (joined (elementLD.get attr.name) (ofMap (propertyValue attr))) := by
  rw [putAttribute, if_neg (by simp [h.name, h.type, h.value])]
  unfold joined
  split <;> rfl

theorem propertiesOf_ofMap {attrs : List ContextAttribute} {k : String} :
    ∀ v ∈ propertiesOf attrs k, ∃ m, v = ofMap m := by
  intro v hv
  obtain ⟨attr, -, rfl⟩ := List.mem_map.mp hv
  exact ⟨_, rfl⟩

theorem propertiesOf_append (attrs attrs' : List ContextAttribute) (k : String) :
    propertiesOf (attrs ++ attrs') k = propertiesOf attrs k ++ propertiesOf attrs' k := by
  rw [propertiesOf, named_append, List.map_append]
  rfl

theorem propertiesOf_singleton (attr : ContextAttribute) (k : String) :
    propertiesOf [attr] k = if attr.name = k then [ofMap (propertyValue attr)] else [] := by
  rw [propertiesOf, named_singleton]
  split_ifs <;> rfl

theorem get_putAttributes {elementLD : GoMap Value} {attrs : List ContextAttribute}
    (hsent : ∀ attr ∈ attrs, Sent attr) (hfree : ∀ attr ∈ attrs, elementLD.get attr.name = none)
    (k : String) :
    (attrs.foldl putAttribute elementLD).get k =
      (bundle (propertiesOf attrs k)).or (elementLD.get k) := by
  induction attrs using List.reverseRecOn with
  | nil => rfl
  | append_singleton attrs attr ih =>
    have ih := ih (fun a ha => hsent a (List.mem_append_left _ ha))
      (fun a ha => hfree a (List.mem_append_left _ ha))
    rw [List.foldl_append, List.foldl_cons, List.foldl_nil,
      putAttribute_eq (hsent attr (by simp)), GoMap.get_set, propertiesOf_append,
      propertiesOf_singleton]
    by_cases hk : attr.name = k
    · have hnone := hfree attr (by simp)
      subst hk
      rw [hnone, Option.or_none] at ih
      rw [if_pos rfl, if_pos rfl, ih, hnone, Option.or_none, bundle_concat propertiesOf_ofMap]
    · rw [if_neg (Ne.symm hk), if_neg hk, ih, List.append_nil]

-- the names that have their own meaning in an entity, in whatever case they are written
def entityNames : List String := ["id", "type", "@context", "location"]

def geoProperty (location : Point) : GoMap Value :=
  typed "GeoProperty" "value" (ofMap (pointLocation location))

-- the domain metadata that stand for a location of the entity, or for none
inductive Located : List ContextMetadata → Option Point → Prop where
  | nowhere : Located [] none
  | point (location : Point) (cordinates : Value) :
      Located [⟨"location", "point", .point location, cordinates⟩] (some location)

variable {addAtContext : Bool} {entity : EntityId}

theorem get_entityLD_id :
    (entityLD addAtContext entity).get "id" = some (.string (entityIdLD entity.id)) := by
  unfold entityLD
  split_ifs <;> simp [GoMap.get_set]

theorem get_entityLD_type :
    (entityLD addAtContext entity).get "type" = some (.string entity.type) := by
  unfold entityLD
  split_ifs <;> simp [GoMap.get_set]

theorem entityIdLD_idem (id : String) : entityIdLD (entityIdLD id) = entityIdLD id := by
  by_cases h : (hasPrefix id "urn:" || hasPrefix id "URN:") = true
  · have hid : entityIdLD id = id := if_pos h
    rw [hid, hid]
  · have hid : entityIdLD id = "urn:ngsi-ld:" ++ id := if_neg h
    have hprefix : hasPrefix ("urn:ngsi-ld:" ++ id) "urn:" = true := by
      simp [hasPrefix, String.toList_append]
    rw [hid, entityIdLD, hprefix]
    rfl

theorem entityLD_congr {entity' : EntityId} (hid : entity'.id = entityIdLD entity.id)
    (htype : entity'.type = entity.type) :
    entityLD addAtContext entity' = entityLD addAtContext entity := by
  rw [entityLD, entityLD, hid, htype, entityIdLD_idem]

theorem get_entityLD (addAtContext : Bool) (entity : EntityId) {k : String}
    (h : k ∉ ["id", "type", "@context"]) : (entityLD addAtContext entity).get k = none := by
  simp only [List.mem_cons, List.not_mem_nil, or_false, not_or] at h
  obtain ⟨hid, htype, hcontext⟩ := h
  unfold entityLD
  split_ifs <;> simp only [GoMap.get_set, GoMap.get_empty, if_neg hid, if_neg htype,
    if_neg hcontext]

theorem mem_entityNames {k : String} :
    k ∈ entityNames ↔ k ∈ ["id", "type", "@context"] ∨ k = "location" := by
  simp only [entityNames, List.mem_cons, List.not_mem_nil, or_false, or_assoc]

theorem toLower_of_mem_entityNames : ∀ k ∈ entityNames, toLower k = k := by decide

theorem propertiesOf_eq_nil {attrs : List ContextAttribute} {k : String}
    (h : ∀ attr ∈ attrs, attr.name ≠ k) : propertiesOf attrs k = [] := by
  rw [propertiesOf, List.map_eq_nil_iff, List.eq_nil_iff_forall_not_mem]
  intro attr hnamed
  obtain ⟨hmem, hname⟩ := mem_named.mp hnamed
  exact h attr hmem hname

theorem get_toElementLD (addAtContext : Bool) {elem : ContextElement} {location : Option Point}
    (hsent : ∀ attr ∈ elem.attributes, Sent attr)
    (hfree : ∀ attr ∈ elem.attributes, toLower attr.name ∉ entityNames)
    (hmeta : Located elem.metadata location) :
    ∃ elementLD, toElementLD addAtContext elem = .ok elementLD ∧ ∀ k, elementLD.get k =
      if k = "location" then location.map (fun p => ofMap (geoProperty p))
      else (bundle (propertiesOf elem.attributes k)).or
        ((entityLD addAtContext elem.entity).get k) := by
  have hname : ∀ attr ∈ elem.attributes, attr.name ∉ entityNames := by
    intro attr hattr hmem
    exact hfree attr hattr (by rwa [toLower_of_mem_entityNames _ hmem])
  have hempty : ∀ attr ∈ elem.attributes,
      (entityLD addAtContext elem.entity).get attr.name = none :=
    fun attr hattr => get_entityLD _ _
      (fun hmem => hname attr hattr (mem_entityNames.mpr (.inl hmem)))
  have hput := get_putAttributes hsent hempty
  rw [toElementLD]
  generalize elem.metadata = metadata at hmeta
  cases hmeta with
  | nowhere =>
    refine ⟨_, rfl, fun k => ?_⟩
    rw [hput]
    split_ifs with hk
    · subst hk
      rw [propertiesOf_eq_nil (fun attr hattr heq => hname attr hattr (by simp [heq, entityNames])),
        get_entityLD _ _ (by decide)]
      rfl
    · rfl
  | point location cordinates =>
    refine ⟨_, rfl, fun k => ?_⟩
    rw [GoMap.get_set, hput]
    rfl

theorem putMetadata_ends_iff {elementLD : GoMap Value} {domainMeta : ContextMetadata} :
    Loop.Ends (putMetadata elementLD domainMeta) ↔
      (domainMeta.name ≠ "" ∧ domainMeta.type = "point" ∧ domainMeta.value ≠ .null →
        ∃ location, domainMeta.value = .point location) := by
  unfold putMetadata
  split_ifs with hskip
  · refine iff_of_true (ends_ok _) (fun h => ?_)
    rcases hskip with hname | htype | hvalue
    · exact absurd hname h.1
    · rw [h.2.1] at htype
      exact absurd htype (by decide)
    · exact absurd hvalue h.2.2
  · push Not at hskip
    rw [ends_bind_ok, domainProperty]
    split_ifs with hpoint
    · cases hv : domainMeta.value with
      | point location => simp
      | null => exact absurd hv hskip.2.2
      | _ => simp [hskip.1, hpoint]
    · simp [hpoint]

theorem foldlM_putMetadata_ends_iff {elementLD : GoMap Value} {metadata : List ContextMetadata} :
    Loop.Ends (metadata.foldlM putMetadata elementLD) ↔ ∀ domainMeta ∈ metadata,
      domainMeta.name ≠ "" ∧ domainMeta.type = "point" ∧ domainMeta.value ≠ .null →
        ∃ location, domainMeta.value = .point location := by
  induction metadata generalizing elementLD with
  | nil => simp [Loop.Ends, pure, Except.pure]
  | cons domainMeta metadata ih =>
    rw [List.foldlM_cons, ends_bind, List.forall_mem_cons]
    constructor
    · rintro ⟨next, hnext, hrest⟩
      exact ⟨putMetadata_ends_iff.mp ⟨next, hnext⟩, ih.mp hrest⟩
    · rintro ⟨hhead, hrest⟩
      obtain ⟨next, hnext⟩ := putMetadata_ends_iff.mpr hhead
      exact ⟨next, hnext, ih.mpr hrest⟩

-- the one fault that the encoder knows
theorem toElementLD_ends_iff {elem : ContextElement} :
    Loop.Ends (toElementLD addAtContext elem) ↔ ∀ domainMeta ∈ elem.metadata,
      domainMeta.name ≠ "" ∧ domainMeta.type = "point" ∧ domainMeta.value ≠ .null →
        ∃ location, domainMeta.value = .point location :=
  foldlM_putMetadata_ends_iff

example : (toNGSILDPayload [⟨⟨"Car", false, "car1"⟩, "", [], []⟩] false).toOption.map
    (List.map (fun elementLD => elementLD.get "id")) =
      some [some (.string "urn:ngsi-ld:car1")] := by decide

end FogFlow.Broker
