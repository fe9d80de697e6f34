import FogFlow.Broker.NgsiLdPayload

namespace FogFlow.Broker

open Ngsi Fields Loop Named

namespace FaithfulPayload

def isSent (attr : ContextAttribute) : Bool :=
  attr.name != "" && attr.type != "" && attr.value != .null

def isSentMetadata (domainMeta : ContextMetadata) : Bool :=
  domainMeta.name != "" && domainMeta.type != "" && domainMeta.value != .null

def sentAttributes (elem : ContextElement) : List ContextAttribute :=
  elem.attributes.filter isSent

def sentMetadata (elem : ContextElement) : List ContextMetadata :=
  elem.metadata.filter isSentMetadata

def bareFields (attr : ContextAttribute) : List (String × Value) :=
  if toLower attr.type = "relationship" then
    [("type", .string "Relationship"), ("object", attr.value)]
  else if toLower attr.type = "datetime" then
    [("type", .string "Property"), ("value", ofMap (datetimeValue attr.value))]
  else [("type", .string "Property"), ("value", attr.value)]

-- the object that an attribute is to be sent as: what kind it is, its value and its metadata
def attributeFields (attr : ContextAttribute) : List (String × Value) :=
  bareFields attr ++ attr.metadata.map (fun metadata => (metadata.name, metadata.value))

def domainFields (domainMeta : ContextMetadata) : List (String × Value) :=
  match domainMeta.value with
  | .point location =>
      if domainMeta.type = "point" then
        [("type", .string "GeoProperty"), ("value", ofMap (pointLocation location))]
      else [("type", .string "Property"), ("value", .point location)]
  | value => [("type", .string "Property"), ("value", value)]

def Carries (fields : List (String × Value)) (v : Value) : Prop :=
  ∃ p : GoMap Value, v = ofMap p ∧ ∀ x ∈ fields, p.get x.1 = some x.2

-- one object for one attribute of the name, an array of them for several
def Appears : List ContextAttribute → Option Value → Prop
  | [], _ => True
  | [attr], member => ∃ v, member = some v ∧ Carries (attributeFields attr) v
  | attrs, member => ∃ vs, member = some (.array vs) ∧
      List.Forall₂ (fun attr v => Carries (attributeFields attr) v) attrs vs

structure FaithfulEntity (elem : ContextElement) (elementLD : GoMap Value) : Prop where
  id : elementLD.get "id" = some (.string (entityIdLD elem.entity.id))
  type : elementLD.get "type" = some (.string elem.entity.type)
  attributes : ∀ n, Appears (named ContextAttribute.name n (sentAttributes elem)) (elementLD.get n)
  metadata : ∀ domainMeta ∈ sentMetadata elem, ∃ v, elementLD.get domainMeta.name = some v ∧
    Carries (domainFields domainMeta) v

structure Faithful (elems : List ContextElement) (elementsLD : List (GoMap Value)) : Prop where
  entities : List.Forall₂ FaithfulEntity elems elementsLD
  ids : elementsLD.Pairwise (fun a b => a.get "id" ≠ b.get "id")

theorem carries_ofMap {fields : List (String × Value)} {p : GoMap Value} :
    Carries fields (ofMap p) ↔ ∀ x ∈ fields, p.get x.1 = some x.2 := by
  constructor
  · rintro ⟨p', heq, hall⟩ x hx
    have hfields : toFields p = toFields p' := Value.object.inj heq
    rw [← get_ofFields_toFields, hfields, get_ofFields_toFields]
    exact hall x hx
  · exact fun hall => ⟨p, rfl, hall⟩

theorem bareProperty_eq (attr : ContextAttribute) :
    bareProperty attr = ofFields (bareFields attr) := by
  unfold bareProperty bareFields
  split
  next hrelationship =>
    rw [if_pos hrelationship]
    rfl
  next hdatetime =>
    rw [if_neg (by rw [hdatetime]; decide), if_pos hdatetime]
    rfl
  next hrelationship hdatetime =>
    rw [if_neg hrelationship, if_neg hdatetime]
    rfl

theorem get_propertyValue_fields (attr : ContextAttribute) (k : String) :
    (propertyValue attr).get k = (ofFields (attributeFields attr)).get k := by
  have hmetadata : (ofFields (attr.metadata.map (fun metadata =>
      (metadata.name, metadata.value)))).get k =
        (named ContextMetadata.name k attr.metadata).getLast?.map ContextMetadata.value := by
    rw [ofFields, List.foldl_map]
    exact (get_foldl_set_val ContextMetadata.name ContextMetadata.value ∅ attr.metadata).trans
      (Option.or_none)
  rw [get_propertyValue, attributeFields, get_ofFields_append, hmetadata,
    bareProperty_eq]

theorem carries_property (attr : ContextAttribute) :
    Carries (attributeFields attr) (ofMap (propertyValue attr)) ↔
      Functional (attributeFields attr) := by
  rw [carries_ofMap, ← get_ofFields_iff_functional]
  simp only [get_propertyValue_fields]

theorem domainFields_keys (domainMeta : ContextMetadata) :
    (domainFields domainMeta).map Prod.fst = ["type", "value"] := by
  unfold domainFields
  split
  · split_ifs <;> rfl
  · rfl

theorem mem_domainFields {domainMeta : ContextMetadata} {x : String × Value} :
    (ofFields (domainFields domainMeta)).get x.1 = some x.2 ↔ x ∈ domainFields domainMeta := by
  refine get_ofFields_of_nodup ?_
  rw [domainFields_keys]
  decide

-- the elements of a name one after the other, from what the map had there
def joinAll (existing : Option Value) (properties : List Value) : Option Value :=
  properties.foldl (fun acc property => some (joined acc property)) existing

theorem isSent_iff {attr : ContextAttribute} : isSent attr = true ↔ Sent attr := by
  rw [isSent, Bool.and_eq_true, Bool.and_eq_true, bne_iff_ne, bne_iff_ne, bne_iff_ne]
  exact ⟨fun h => ⟨h.1.1, h.1.2, h.2⟩, fun h => ⟨⟨h.name, h.type⟩, h.value⟩⟩

theorem putAttribute_unsent {attr : ContextAttribute} (h : ¬ isSent attr = true)
    (elementLD : GoMap Value) : putAttribute elementLD attr = elementLD := by
  rw [putAttribute, if_pos]
  by_contra hskip
  push Not at hskip
  exact h (isSent_iff.mpr ⟨hskip.1, hskip.2.1, hskip.2.2⟩)

theorem get_putAttributes_sent (elementLD : GoMap Value) (attrs : List ContextAttribute)
    (k : String) : (attrs.foldl putAttribute elementLD).get k =
      joinAll (elementLD.get k) (propertiesOf (attrs.filter isSent) k) := by
  induction attrs generalizing elementLD with
  | nil => rfl
  | cons attr attrs ih =>
    rw [List.foldl_cons, ih, List.filter_cons]
    split_ifs with hsent
    · rw [putAttribute_eq (isSent_iff.mp hsent), GoMap.get_set, ← List.singleton_append,
        propertiesOf_append, propertiesOf_singleton]
      by_cases hk : attr.name = k
      · subst hk
        rw [if_pos rfl, if_pos rfl]
        rfl
      · rw [if_neg (Ne.symm hk), if_neg hk]
        rfl
    · rw [putAttribute_unsent hsent]

theorem joinAll_concat (existing : Option Value) (properties : List Value) (property : Value) :
    joinAll existing (properties ++ [property]) =
      some (joined (joinAll existing properties) property) := by
  rw [joinAll, List.foldl_append]
  rfl

theorem joinAll_none {properties : List Value} (h : ∀ v ∈ properties, ∃ m, v = ofMap m) :
    joinAll none properties = bundle properties := by
  induction properties using List.reverseRecOn with
  | nil => rfl
  | append_singleton properties property ih =>
    have hrest : ∀ v ∈ properties, ∃ m, v = ofMap m := fun v hv => h v (by simp [hv])
    rw [joinAll_concat, ih hrest, bundle_concat hrest]

theorem joinAll_string (s : String) (properties : List Value) :
    joinAll (some (.string s)) properties =
      if properties = [] then some (.string s) else some (.array (.string s :: properties)) := by
  induction properties using List.reverseRecOn with
  | nil => rfl
  | append_singleton properties property ih =>
    rw [joinAll_concat, ih]
    by_cases hnil : properties = []
    · subst hnil
      rfl
    · rw [if_neg hnil, if_neg (List.concat_ne_nil property properties)]
      rfl

theorem domainProperty_eq {domainMeta : ContextMetadata}
    (hpoint : domainMeta.type = "point" → ∃ p, domainMeta.value = .point p) :
    domainProperty domainMeta = .ok (ofFields (domainFields domainMeta)) := by
  obtain ⟨name, type, value, cordinates⟩ := domainMeta
  by_cases htype : type = "point"
  · obtain ⟨location, rfl⟩ := hpoint htype
    subst htype
    rfl
  · rw [domainProperty, if_neg htype, domainFields]
    split
    next location hvalue =>
      dsimp only at hvalue
      rw [if_neg htype, hvalue]
      rfl
    next => rfl

theorem putMetadata_eq {domainMeta : ContextMetadata} (elementLD : GoMap Value)
    (hpoint : domainMeta.type = "point" → ∃ p, domainMeta.value = .point p) :
    putMetadata elementLD domainMeta = .ok (if isSentMetadata domainMeta then
      elementLD.set domainMeta.name (ofMap (ofFields (domainFields domainMeta))) else
      elementLD) := by
  have hsent : isSentMetadata domainMeta = true ↔
      ¬ (domainMeta.name = "" ∨ domainMeta.type = "" ∨ domainMeta.value = .null) := by
    simp [isSentMetadata, and_assoc]
  rw [putMetadata, domainProperty_eq hpoint]
  by_cases hskip : domainMeta.name = "" ∨ domainMeta.type = "" ∨ domainMeta.value = .null
  · rw [if_pos hskip, if_neg (fun h => hsent.mp h hskip)]
  · rw [if_neg hskip, if_pos (hsent.mpr hskip)]
    rfl

-- under each name stands the last of the domain metadata that are sent under it
theorem foldlM_putMetadata {metadata : List ContextMetadata} (elementLD : GoMap Value)
    (hpoints : ∀ m ∈ metadata, m.type = "point" → ∃ p, m.value = .point p) :
    ∃ out, metadata.foldlM putMetadata elementLD = .ok out ∧ ∀ k, out.get k =
      (((named ContextMetadata.name k (metadata.filter isSentMetadata)).getLast?).map
        (fun m => ofMap (ofFields (domainFields m)))).or (elementLD.get k) := by
  refine ⟨(metadata.filter isSentMetadata).foldl (fun elementLD m =>
    elementLD.set m.name (ofMap (ofFields (domainFields m)))) elementLD, ?_,
    fun k => get_foldl_set_val _ _ _ _⟩
  induction metadata generalizing elementLD with
  | nil => rfl
  | cons m metadata ih =>
    rw [List.foldlM_cons, putMetadata_eq elementLD (hpoints m (by simp)), ok_bind,
      ih _ (fun m' hm' => hpoints m' (by simp [hm'])), List.filter_cons]
    split_ifs <;> rfl

theorem get_toElementLD_sent (addAtContext : Bool) {elem : ContextElement}
    (hpoints : ∀ m ∈ elem.metadata, m.type = "point" → ∃ p, m.value = .point p) :
    ∃ elementLD, toElementLD addAtContext elem = .ok elementLD ∧ ∀ k, elementLD.get k =
      (((named ContextMetadata.name k (sentMetadata elem)).getLast?).map
        (fun m => ofMap (ofFields (domainFields m)))).or
          (joinAll ((entityLD addAtContext elem.entity).get k)
            (propertiesOf (sentAttributes elem) k)) := by
  obtain ⟨out, hout, hget⟩ := foldlM_putMetadata
    (elem.attributes.foldl putAttribute (entityLD addAtContext elem.entity)) hpoints
  refine ⟨out, hout, fun k => ?_⟩
  rw [hget, get_putAttributes_sent]
  rfl

theorem carries_domainFields {fields : List (String × Value)} {domainMeta : ContextMetadata} :
    Carries fields (ofMap (ofFields (domainFields domainMeta))) ↔
      ∀ x ∈ fields, x ∈ domainFields domainMeta := by
  rw [carries_ofMap]
  simp only [mem_domainFields]

theorem appears_bundle (attrs : List ContextAttribute) :
    Appears attrs (bundle (attrs.map (fun attr => ofMap (propertyValue attr)))) ↔
      ∀ attr ∈ attrs, Functional (attributeFields attr) := by
  match attrs with
  | [] => simp [Appears]
  | [attr] => simp [Appears, bundle, carries_property]
  | first :: second :: rest =>
    have hforall : List.Forall₂ (fun attr v => Carries (attributeFields attr) v)
        (first :: second :: rest)
        ((first :: second :: rest).map (fun attr => ofMap (propertyValue attr))) ↔
          ∀ attr ∈ first :: second :: rest, Functional (attributeFields attr) := by
      rw [List.forall₂_map_right_iff, List.forall₂_same]
      simp only [carries_property]
    rw [← hforall]
    constructor
    · rintro ⟨vs, hvs, hall⟩
      obtain rfl := Value.array.inj (Option.some.inj hvs)
      exact hall
    · exact fun hall => ⟨_, rfl, hall⟩

theorem carries_string {fields : List (String × Value)} {s : String} :
    ¬ Carries fields (.string s) := by
  rintro ⟨p, heq, -⟩
  cases heq

theorem carries_array {fields : List (String × Value)} {items : List Value} :
    ¬ Carries fields (.array items) := by
  rintro ⟨p, heq, -⟩
  cases heq

-- a text that was there before stays in front of the properties
theorem appears_string (s : String) (attrs : List ContextAttribute) :
    Appears attrs (joinAll (some (.string s))
      (attrs.map (fun attr => ofMap (propertyValue attr)))) ↔ attrs = [] := by
  rw [joinAll_string]
  match attrs with
  | [] => simp [Appears]
  | [attr] => simp [Appears, carries_array]
  | first :: second :: rest =>
    simp only [Appears, List.map_cons, reduceCtorEq, if_false, iff_false]
    rintro ⟨vs, hvs, hall⟩
    rw [← Value.array.inj (Option.some.inj hvs), List.forall₂_cons] at hall
    exact carries_string hall.1

theorem appears_replaced (attrs : List ContextAttribute) (domainMeta : ContextMetadata) :
    Appears attrs (some (ofMap (ofFields (domainFields domainMeta)))) ↔
      ∀ attr ∈ attrs, attrs = [attr] ∧
        ∀ x ∈ attributeFields attr, x ∈ domainFields domainMeta := by
  match attrs with
  | [] => simp [Appears]
  | [attr] => simp [Appears, carries_domainFields]
  | first :: second :: rest =>
    refine iff_of_false ?_ ?_
    · rintro ⟨vs, hvs, -⟩
      cases hvs
    · intro hall
      have hone := (hall first (by simp)).1
      simp at hone

-- what the names of an element may share
structure Apart (addAtContext : Bool) (elem : ContextElement) : Prop where
  attributeNames : ∀ attr ∈ sentAttributes elem, attr.name ∉ ["id", "type"]
  metadataNames : ∀ m ∈ sentMetadata elem, m.name ∉ ["id", "type"]
  metadata : ∀ m ∈ sentMetadata elem, ∀ m' ∈ sentMetadata elem, m.name = m'.name →
    domainFields m = domainFields m'
  replaced : ∀ attr ∈ sentAttributes elem, ∀ m ∈ sentMetadata elem, m.name = attr.name →
    named ContextAttribute.name attr.name (sentAttributes elem) = [attr] ∧
      ∀ x ∈ attributeFields attr, x ∈ domainFields m
  kept : ∀ attr ∈ sentAttributes elem, (∀ m ∈ sentMetadata elem, m.name ≠ attr.name) →
    Functional (attributeFields attr) ∧ (addAtContext = true → attr.name ≠ "@context")

theorem domainFields_eq_of_subset {m m' : ContextMetadata}
    (h : ∀ x ∈ domainFields m, x ∈ domainFields m') : domainFields m = domainFields m' := by
  have hpair : ∀ m : ContextMetadata, ∃ t v, domainFields m = [("type", t), ("value", v)] := by
    intro m
    unfold domainFields
    split
    · split_ifs <;> exact ⟨_, _, rfl⟩
    · exact ⟨_, _, rfl⟩
  obtain ⟨t, v, hm⟩ := hpair m
  obtain ⟨t', v', hm'⟩ := hpair m'
  rw [hm, hm'] at h ⊢
  simpa using h

-- the text of a structural member, unless the context is asked for
theorem get_entityLD_free (addAtContext : Bool) (entity : EntityId) {k : String}
    (hk : k ∉ ["id", "type"]) :
    (entityLD addAtContext entity).get k =
      if addAtContext = true ∧ k = "@context" then some (.string ngsildCoreContext) else none := by
  simp only [List.mem_cons, List.not_mem_nil, or_false, not_or] at hk
  unfold entityLD
  cases addAtContext <;> simp [GoMap.get_set, hk.1, hk.2]

variable {addAtContext : Bool} {elem : ContextElement} {elementLD : GoMap Value}

-- what a member of the encoded entity is made of
def Encodes (addAtContext : Bool) (elem : ContextElement) (elementLD : GoMap Value) : Prop :=
  ∀ k, elementLD.get k =
    (((named ContextMetadata.name k (sentMetadata elem)).getLast?).map
      (fun m => ofMap (ofFields (domainFields m)))).or
        (joinAll ((entityLD addAtContext elem.entity).get k)
          (propertiesOf (sentAttributes elem) k))

theorem Encodes.without_metadata (h : Encodes addAtContext elem elementLD) {k : String}
    (hk : ∀ m ∈ sentMetadata elem, m.name ≠ k) :
    elementLD.get k = joinAll ((entityLD addAtContext elem.entity).get k)
      ((named ContextAttribute.name k (sentAttributes elem)).map
        (fun attr => ofMap (propertyValue attr))) := by
  have hnone : named ContextMetadata.name k (sentMetadata elem) = [] :=
    List.filter_eq_nil_iff.mpr (fun m hm hname => hk m hm (by simpa using hname))
  rw [h, hnone]
  rfl

theorem Encodes.with_metadata (h : Encodes addAtContext elem elementLD) {m : ContextMetadata}
    (hm : m ∈ sentMetadata elem) : ∃ last ∈ sentMetadata elem, last.name = m.name ∧
      elementLD.get m.name = some (ofMap (ofFields (domainFields last))) := by
  have hne : named ContextMetadata.name m.name (sentMetadata elem) ≠ [] :=
    List.ne_nil_of_mem (mem_named.mpr ⟨hm, rfl⟩)
  obtain ⟨last, hlast⟩ := Option.isSome_iff_exists.mp (List.getLast?_isSome.mpr hne)
  obtain ⟨hmem, hname⟩ := mem_named.mp (List.mem_of_getLast? hlast)
  refine ⟨last, hmem, hname, ?_⟩
  rw [h, hlast]
  rfl

-- a structural text survives if nothing is sent under its name
theorem Encodes.text_iff (h : Encodes addAtContext elem elementLD) {k s : String}
    (hk : (entityLD addAtContext elem.entity).get k = some (.string s)) :
    elementLD.get k = some (.string s) ↔
      (∀ attr ∈ sentAttributes elem, attr.name ≠ k) ∧ ∀ m ∈ sentMetadata elem, m.name ≠ k := by
  constructor
  · intro htext
    have hmetadata : ∀ m ∈ sentMetadata elem, m.name ≠ k := by
      rintro m hm rfl
      obtain ⟨last, -, -, hget⟩ := h.with_metadata hm
      rw [htext] at hget
      cases hget
    refine ⟨fun attr hattr hname => ?_, hmetadata⟩
    have hmem : attr ∈ named ContextAttribute.name k (sentAttributes elem) :=
      mem_named.mpr ⟨hattr, hname⟩
    rw [h.without_metadata hmetadata, hk, joinAll_string, if_neg] at htext
    · cases htext
    · exact fun hnil => List.ne_nil_of_mem hmem (List.map_eq_nil_iff.mp hnil)
  · rintro ⟨hattributes, hmetadata⟩
    have hnone : named ContextAttribute.name k (sentAttributes elem) = [] :=
      List.filter_eq_nil_iff.mpr (fun attr hattr hname =>
        hattributes attr hattr (by simpa using hname))
    rw [h.without_metadata hmetadata, hk, hnone]
    rfl

theorem Encodes.metadata_iff (h : Encodes addAtContext elem elementLD) :
    (∀ m ∈ sentMetadata elem, ∃ v, elementLD.get m.name = some v ∧ Carries (domainFields m) v) ↔
      ∀ m ∈ sentMetadata elem, ∀ m' ∈ sentMetadata elem, m.name = m'.name →
        domainFields m = domainFields m' := by
  constructor
  · intro hcarried
    have hlast : ∀ m ∈ sentMetadata elem, elementLD.get m.name =
        some (ofMap (ofFields (domainFields m))) := by
      intro m hm
      obtain ⟨last, -, -, hget⟩ := h.with_metadata hm
      obtain ⟨v, hv, hcarries⟩ := hcarried m hm
      obtain rfl := Option.some.inj (hget.symm.trans hv)
      rw [hget, domainFields_eq_of_subset (carries_domainFields.mp hcarries)]
    intro m hm m' hm' hname
    have hget := hlast m hm
    rw [hname, hlast m' hm', Option.some.injEq] at hget
    refine (domainFields_eq_of_subset (carries_domainFields.mp ?_)).symm
    rw [← hget]
    exact carries_domainFields.mpr (fun x hx => hx)
  · intro hsame m hm
    obtain ⟨last, hlast, hname, hget⟩ := h.with_metadata hm
    refine ⟨_, hget, carries_domainFields.mpr (fun x hx => ?_)⟩
    rwa [hsame last hlast m hm hname]

theorem Encodes.appears_iff (h : Encodes addAtContext elem elementLD)
    (hsame : ∀ m ∈ sentMetadata elem, ∀ m' ∈ sentMetadata elem, m.name = m'.name →
      domainFields m = domainFields m') {n : String} (hn : n ∉ ["id", "type"]) :
    Appears (named ContextAttribute.name n (sentAttributes elem)) (elementLD.get n) ↔
      ∀ attr ∈ sentAttributes elem, attr.name = n →
        (∀ m ∈ sentMetadata elem, m.name = n →
          named ContextAttribute.name n (sentAttributes elem) = [attr] ∧
            ∀ x ∈ attributeFields attr, x ∈ domainFields m) ∧
        ((∀ m ∈ sentMetadata elem, m.name ≠ n) →
          Functional (attributeFields attr) ∧ (addAtContext = true → n ≠ "@context")) := by
  by_cases hmetadata : ∃ m ∈ sentMetadata elem, m.name = n
  · obtain ⟨m, hm, rfl⟩ := hmetadata
    obtain ⟨last, hlast, hname, hget⟩ := h.with_metadata hm
    rw [hget, appears_replaced]
    constructor
    · intro hall attr hattr hattrname
      refine ⟨fun m' hm' hname' => ?_, fun hno => absurd rfl (hno m hm)⟩
      rw [hsame m' hm' last hlast (hname'.trans hname.symm)]
      exact hall attr (mem_named.mpr ⟨hattr, hattrname⟩)
    · intro hall attr hattr
      obtain ⟨hmem, hattrname⟩ := mem_named.mp hattr
      exact (hall attr hmem hattrname).1 last hlast hname
  · push Not at hmetadata
    rw [h.without_metadata hmetadata, get_entityLD_free _ _ hn]
    split_ifs with hcontext
    · rw [appears_string]
      constructor
      · intro hnil attr hattr hattrname
        have hmem := mem_named.mpr ⟨hattr, hattrname⟩
        rw [hnil] at hmem
        exact absurd hmem List.not_mem_nil
      · intro hall
        refine List.eq_nil_iff_forall_not_mem.mpr (fun attr hattr => ?_)
        obtain ⟨hmem, hattrname⟩ := mem_named.mp hattr
        exact ((hall attr hmem hattrname).2 hmetadata).2 hcontext.1 hcontext.2
    · rw [joinAll_none, appears_bundle]
      · constructor
        · intro hall attr hattr hattrname
          refine ⟨fun m hm hname => absurd hname (hmetadata m hm), fun _ => ⟨?_, ?_⟩⟩
          · exact hall attr (mem_named.mpr ⟨hattr, hattrname⟩)
          · exact fun hadd hname => hcontext ⟨hadd, hname⟩
        · intro hall attr hattr
          obtain ⟨hmem, hattrname⟩ := mem_named.mp hattr
          exact ((hall attr hmem hattrname).2 hmetadata).1
      · intro v hv
        obtain ⟨attr, -, rfl⟩ := List.mem_map.mp hv
        exact ⟨_, rfl⟩

theorem Encodes.faithful_iff (h : Encodes addAtContext elem elementLD) :
    FaithfulEntity elem elementLD ↔ Apart addAtContext elem := by
  have hbaseid : (entityLD addAtContext elem.entity).get "id" = some _ := get_entityLD_id
  have hbasetype : (entityLD addAtContext elem.entity).get "type" = some _ := get_entityLD_type
  have hid := h.text_iff hbaseid
  have htype := h.text_iff hbasetype
  constructor
  · intro hfaithful
    obtain ⟨hattrid, hmetaid⟩ := hid.mp hfaithful.id
    obtain ⟨hattrtype, hmetatype⟩ := htype.mp hfaithful.type
    have hsame := h.metadata_iff.mp hfaithful.metadata
    have hnames : ∀ attr ∈ sentAttributes elem, attr.name ∉ ["id", "type"] := by
      intro attr hattr
      simp [hattrid attr hattr, hattrtype attr hattr]
    have happears : ∀ attr ∈ sentAttributes elem, _ := fun attr hattr =>
      (h.appears_iff hsame (hnames attr hattr)).mp (hfaithful.attributes attr.name) attr hattr rfl
    exact ⟨hnames, fun m hm => by simp [hmetaid m hm, hmetatype m hm], hsame,
      fun attr hattr => (happears attr hattr).1, fun attr hattr => (happears attr hattr).2⟩
  · intro hapart
    refine ⟨hid.mpr ⟨?_, ?_⟩, htype.mpr ⟨?_, ?_⟩, fun n => ?_, h.metadata_iff.mpr hapart.metadata⟩
    · exact fun attr hattr hname => hapart.attributeNames attr hattr (by simp [hname])
    · exact fun m hm hname => hapart.metadataNames m hm (by simp [hname])
    · exact fun attr hattr hname => hapart.attributeNames attr hattr (by simp [hname])
    · exact fun m hm hname => hapart.metadataNames m hm (by simp [hname])
    · by_cases hn : n ∈ ["id", "type"]
      · have hnone : named ContextAttribute.name n (sentAttributes elem) = [] := by
          refine List.eq_nil_iff_forall_not_mem.mpr (fun attr hattr => ?_)
          obtain ⟨hmem, rfl⟩ := mem_named.mp hattr
          exact hapart.attributeNames attr hmem hn
        rw [hnone]
        trivial
      · refine (h.appears_iff hapart.metadata hn).mpr ?_
        rintro attr hattr rfl
        exact ⟨hapart.replaced attr hattr, hapart.kept attr hattr⟩

def isUrn (id : String) : Bool := hasPrefix id "urn:" || hasPrefix id "URN:"

theorem entityIdLD_of_isUrn {id : String} (h : isUrn id = true) : entityIdLD id = id := if_pos h

theorem entityIdLD_of_not_isUrn {id : String} (h : isUrn id = false) :
    entityIdLD id = "urn:ngsi-ld:" ++ id :=
  if_neg (Bool.eq_false_iff.mp h)

theorem entityIdLD_eq_iff {id id' : String} (hne : id ≠ id') :
    entityIdLD id = entityIdLD id' ↔
      (isUrn id = false ∧ id' = "urn:ngsi-ld:" ++ id) ∨
        (isUrn id' = false ∧ id = "urn:ngsi-ld:" ++ id') := by
  constructor
  · intro heq
    cases hurn : isUrn id <;> cases hurn' : isUrn id'
    · rw [entityIdLD_of_not_isUrn hurn, entityIdLD_of_not_isUrn hurn'] at heq
      exact absurd (by simpa using heq) hne
    · rw [entityIdLD_of_not_isUrn hurn, entityIdLD_of_isUrn hurn'] at heq
      exact Or.inl ⟨rfl, heq.symm⟩
    · rw [entityIdLD_of_isUrn hurn, entityIdLD_of_not_isUrn hurn'] at heq
      exact Or.inr ⟨rfl, heq⟩
    · rw [entityIdLD_of_isUrn hurn, entityIdLD_of_isUrn hurn'] at heq
      exact absurd heq hne
  · rintro (⟨hurn, rfl⟩ | ⟨hurn, rfl⟩)
    · rw [← entityIdLD_of_not_isUrn hurn, entityIdLD_idem]
    · rw [← entityIdLD_of_not_isUrn hurn, entityIdLD_idem]

theorem entityIdLD_pairwise_iff {ids : List String} (hnd : ids.Nodup) :
    ids.Pairwise (fun a b => entityIdLD a ≠ entityIdLD b) ↔
      ∀ id ∈ ids, ∀ id' ∈ ids, isUrn id = false → id' ≠ "urn:ngsi-ld:" ++ id := by
  constructor
  · intro hpairs id hid id' hid' hurn heq
    have hne : id ≠ id' := by
      rintro rfl
      have hlen := congrArg String.length heq
      simp at hlen
    have hmap : (ids.map entityIdLD).Nodup := List.pairwise_map.mpr hpairs
    exact hne (List.inj_on_of_nodup_map hmap hid hid'
      ((entityIdLD_eq_iff hne).mpr (Or.inl ⟨hurn, heq⟩)))
  · intro hall
    refine hnd.pairwise_of_forall_ne (fun id hid id' hid' hne heq => ?_)
    rcases (entityIdLD_eq_iff hne).mp heq with ⟨hurn, he⟩ | ⟨hurn, he⟩
    · exact hall id hid id' hid' hurn he
    · exact hall id' hid' id hid hurn he

theorem forall₂_faithful_iff {elems : List ContextElement} {elementsLD : List (GoMap Value)}
    (h : List.Forall₂ (Encodes addAtContext) elems elementsLD) :
    List.Forall₂ FaithfulEntity elems elementsLD ↔
      ∀ elem ∈ elems, Apart addAtContext elem := by
  induction h with
  | nil => simp
  | cons hencodes _ ih => rw [List.forall₂_cons, List.forall_mem_cons, hencodes.faithful_iff, ih]

theorem ids_of_faithful {elems : List ContextElement} {elementsLD : List (GoMap Value)}
    (h : List.Forall₂ FaithfulEntity elems elementsLD) :
    elementsLD.Pairwise (fun a b => a.get "id" ≠ b.get "id") ↔
      (elems.map (fun elem => elem.entity.id)).Pairwise
        (fun a b => entityIdLD a ≠ entityIdLD b) := by
  have hids : elementsLD.map (fun elementLD => elementLD.get "id") =
      (elems.map (fun elem => elem.entity.id)).map
        (fun id => some (Value.string (entityIdLD id))) := by
    induction h with
    | nil => rfl
    | cons hfaithful _ ih =>
      rw [List.map_cons, List.map_cons, List.map_cons, ih, hfaithful.id]
  have hpairs : elementsLD.Pairwise (fun a b => a.get "id" ≠ b.get "id") ↔
      (elementsLD.map (fun elementLD => elementLD.get "id")).Pairwise (fun a b => a ≠ b) :=
    List.pairwise_map.symm
  rw [hpairs, hids, List.pairwise_map]
  simp

theorem toNGSILDPayload_encodes (addAtContext : Bool) {elems : List ContextElement}
    (hpoints : ∀ elem ∈ elems, ∀ m ∈ elem.metadata, m.type = "point" →
      ∃ p, m.value = .point p) :
    ∃ elementsLD, toNGSILDPayload elems addAtContext = .ok elementsLD ∧
      List.Forall₂ (Encodes addAtContext) elems elementsLD :=
  mapM_total (fun elem helem => get_toElementLD_sent addAtContext (hpoints elem helem))

theorem toNGSILDPayload_faithful_iff {elems : List ContextElement}
    (hids : (elems.map (fun elem => elem.entity.id)).Nodup)
    (hpoints : ∀ elem ∈ elems, ∀ m ∈ elem.metadata, m.type = "point" →
      ∃ p, m.value = .point p) (addAtContext : Bool) :
    ∃ elementsLD, toNGSILDPayload elems addAtContext = .ok elementsLD ∧
      (Faithful elems elementsLD ↔
        (∀ elem ∈ elems, Apart addAtContext elem) ∧
          ∀ elem ∈ elems, ∀ elem' ∈ elems, isUrn elem.entity.id = false →
            elem'.entity.id ≠ "urn:ngsi-ld:" ++ elem.entity.id) := by
  obtain ⟨elementsLD, hok, hencodes⟩ := toNGSILDPayload_encodes addAtContext hpoints
  refine ⟨elementsLD, hok, ?_⟩
  have hentities := forall₂_faithful_iff hencodes
  have hdistinct := entityIdLD_pairwise_iff hids
  simp only [List.forall_mem_map] at hdistinct
  rw [← hentities, ← hdistinct]
  constructor
  · exact fun h => ⟨h.entities, (ids_of_faithful h.entities).mp h.ids⟩
  · exact fun h => ⟨h.1, (ids_of_faithful h.1).mpr h.2⟩

-- an NGSIv1 client describes the value of its attribute in a metadata of that name
def ratedSpeed : ContextAttribute :=
  ⟨"speed", "float", .number 50, [⟨"value", "string", .string "fast", .null⟩]⟩

def ratedCar : ContextElement := ⟨⟨"Car", false, "car1"⟩, "", [ratedSpeed], []⟩

theorem ratedCar_points : ∀ elem ∈ [ratedCar], ∀ m ∈ elem.metadata, m.type = "point" →
    ∃ p, m.value = .point p := by
  intro elem helem m hm
  obtain rfl := List.mem_singleton.mp helem
  exact absurd hm List.not_mem_nil

theorem ratedCar_encoded :
    ∃ elementsLD, toNGSILDPayload [ratedCar] false = .ok elementsLD ∧
      (Faithful [ratedCar] elementsLD ↔
        (∀ elem ∈ [ratedCar], Apart false elem) ∧
          ∀ elem ∈ [ratedCar], ∀ elem' ∈ [ratedCar], isUrn elem.entity.id = false →
            elem'.entity.id ≠ "urn:ngsi-ld:" ++ elem.entity.id) :=
  toNGSILDPayload_faithful_iff (by decide) ratedCar_points false

theorem ratedCar_loses_speed :
    ∃ elementsLD, toNGSILDPayload [ratedCar] false = .ok elementsLD ∧
      ¬ Faithful [ratedCar] elementsLD := by
  obtain ⟨elementsLD, hok, hencodes⟩ := toNGSILDPayload_encodes false ratedCar_points
  refine ⟨elementsLD, hok, fun hfaithful => ?_⟩
  have hapart := (forall₂_faithful_iff hencodes).mp hfaithful.entities ratedCar (by simp)
  have hsent : ratedSpeed ∈ sentAttributes ratedCar := by decide
  have hfunctional := (hapart.kept ratedSpeed hsent (by simp [sentMetadata, ratedCar])).1
  have heq := hfunctional ("value", .number 50) (by decide) ("value", .string "fast") (by decide)
    rfl
  cases heq

end FaithfulPayload

end FogFlow.Broker
