import FogFlow.Broker.PropertyReencoding

namespace FogFlow.Broker

open Ngsi Fields Loop Named

variable {rawMessage : String → Json} {orders : Orders} {k : String} {v : Value}
  {ce : ContextElement} {m : GoMap Value}

theorem readItem_readable (orders : Orders) (ce : ContextElement) (h : Readable rawMessage m)
    (hk : k ≠ "") (i : Nat) :
    ∃ attr, readItem orders k ce (ofMap m, i) =
        .ok { ce with attributes := ce.attributes ++ [attr] } ∧
      attr.name = k ∧ Sent attr ∧ ofMap (propertyValue attr) = ofMap m := by
  obtain ⟨attr, hattr, hname, hsent, hwritten⟩ := readAttribute_readable
    (orders.property k i) (h.congr (get_ofFields_toFields m)) hk
  refine ⟨attr, ?_, hname, hsent, hwritten.trans (ofMap_congr (get_ofFields_toFields m))⟩
  have hadd : ce.addAttribute attr = { ce with attributes := ce.attributes ++ [attr] } :=
    if_pos ⟨hsent.name, hsent.type, hsent.value⟩
  rw [← hadd]
  simp only [readItem, ofMap, hattr, ok_bind]

theorem readItems_readable (orders : Orders) (ce : ContextElement)
    {properties : List (GoMap Value)}
    (h : ∀ property ∈ properties, Readable rawMessage property) (hk : k ≠ "") (i : Nat) :
    ∃ attrs, ((properties.map ofMap).zipIdx i).foldlM (readItem orders k) ce =
        .ok { ce with attributes := ce.attributes ++ attrs } ∧
      (∀ attr ∈ attrs, attr.name = k ∧ Sent attr) ∧
      attrs.map (fun attr => ofMap (propertyValue attr)) = properties.map ofMap := by
  induction properties generalizing ce i with
  | nil => exact ⟨[], by simp [pure, Except.pure], by simp, rfl⟩
  | cons property properties ih =>
    obtain ⟨attr, hattr, hname, hsent, hwritten⟩ := readItem_readable orders ce
      (h property (by simp)) hk i
    obtain ⟨attrs, hattrs, hall, hmap⟩ := ih
      { ce with attributes := ce.attributes ++ [attr] }
      (fun p hp => h p (List.mem_cons_of_mem _ hp)) (i + 1)
    refine ⟨attr :: attrs, ?_, List.forall_mem_cons.mpr ⟨⟨hname, hsent⟩, hall⟩, ?_⟩
    · rw [List.map_cons, List.zipIdx_cons, List.foldlM_cons, hattr, ok_bind, hattrs,
        List.append_assoc, List.singleton_append]
    · rw [List.map_cons, List.map_cons, hwritten, hmap]

theorem readEntry_of_free (h : toLower k ∉ entityNames) :
    readEntry orders ce ⟨k, v⟩ =
      match v with
      | .object fields => do
          let ce ← readItem orders k ce (v, 0)
          let _ ← asString (valueAt (ofFields fields) "type")
          .ok ce
      | .array items => items.zipIdx.foldlM (readItem orders k) ce
      | _ => .ok ce := by
  simp only [entityNames, List.mem_cons, List.not_mem_nil, or_false, not_or] at h
  obtain ⟨hid, htype, hcontext, hlocation⟩ := h
  cases v <;> simp only [readEntry, if_neg hlocation]

theorem readEntry_bundle (orders : Orders) (ce : ContextElement)
    {properties : List (GoMap Value)}
    (hread : ∀ property ∈ properties, Readable rawMessage property) (hk : k ≠ "")
    (hfree : toLower k ∉ entityNames) (hv : bundle (properties.map ofMap) = some v) :
    ∃ attrs, readEntry orders ce ⟨k, v⟩ =
        .ok { ce with attributes := ce.attributes ++ attrs } ∧
      (∀ attr ∈ attrs, attr.name = k ∧ Sent attr) ∧
      bundle (attrs.map (fun attr => ofMap (propertyValue attr))) = some v := by
  rw [readEntry_of_free hfree]
  match properties with
  | [] => exact absurd hv (by simp [bundle])
  | [property] =>
    obtain rfl : ofMap property = v := Option.some.inj hv
    obtain ⟨attr, hattr, hname, hsent, hwritten⟩ := readItem_readable orders ce
      (hread property (by simp)) hk 0
    have htype : ∃ typeName, valueAt (ofFields (toFields property)) "type" =
        .string typeName := by
      rw [valueAt, get_ofFields_toFields]
      rcases hread property (by simp) with h | h <;> exact ⟨_, by rw [h.type]; rfl⟩
    obtain ⟨typeName, htype⟩ := htype
    refine ⟨[attr], ?_, by simp [hname, hsent], by simp [hwritten, bundle]⟩
    simp only [ofMap] at hattr ⊢
    rw [hattr, ok_bind, htype]
    rfl
  | first :: second :: rest =>
    obtain rfl : Value.array (List.map ofMap (first :: second :: rest)) = v :=
      Option.some.inj hv
    obtain ⟨attrs, hattrs, hall, hmap⟩ := readItems_readable orders ce hread hk 0
    exact ⟨attrs, hattrs, hall, by rw [hmap]; rfl⟩

theorem readEntry_location (location : Point) :
    readEntry orders ce ⟨"location", ofMap (geoProperty location)⟩ =
      .ok { ce with
        metadata := ce.metadata ++
          [⟨"location", "point", .point location, .point location⟩] } := by
  have hlower : toLower "location" = "location" := by decide
  have htype : valueAt (geoProperty location) "type" = .string "GeoProperty" :=
    valueAt_typed_type (by decide)
  have hpoint : valueAt (pointLocation location) "type" = .string "Point" :=
    valueAt_typed_type (by decide)
  have hitem : ∀ rank, readAttributeFromNGSILD rank "location"
      (ofFields (toFields (geoProperty location))) = .ok ⟨"", "", .null, []⟩ := by
    intro rank
    simp only [readAttributeFromNGSILD, valueAt_toFields, htype, asString, ok_bind]
    rfl
  have hread : readLocation "location" (ofFields (toFields (geoProperty location))) =
      .ok ⟨"location", "point", .point location, .point location⟩ := by
    simp only [readLocation, valueAt_toFields, htype, asString, ok_bind]
    rw [if_pos (by decide), geoProperty, valueAt_typed]
    simp only [ofMap, asMap, ok_bind, ContextMetadata.readGeoJSON, valueAt_toFields, hpoint,
      asString]
    rw [if_pos (by decide), pointLocation, valueAt_typed]
    rfl
  simp only [readEntry, hlower, ofMap, readItem, hitem, hread]
  rfl

-- an entity whose members are as the encoder writes them
structure LdEntity (rawMessage : String → Json) (addAtContext : Bool) (entity : EntityId)
    (location : Option Point) (m : GoMap Value) : Prop where
  entity : ∀ k ∈ ["id", "type", "@context"], m.get k = (entityLD addAtContext entity).get k
  location : m.get "location" = location.map (fun p => ofMap (geoProperty p))
  names : ∀ k, m.get k ≠ none → toLower k ∈ entityNames → k ∈ entityNames
  attributes : ∀ k v, m.get k = some v → toLower k ∉ entityNames → k ≠ "" ∧
    ∃ properties : List (GoMap Value),
      (∀ property ∈ properties, Readable rawMessage property) ∧
      bundle (properties.map ofMap) = some v

-- what the decoder has made of the members that it has visited
structure ReadSoFar (entity : EntityId) (location : Option Point) (visited : GoMap Value)
    (ce : ContextElement) : Prop where
  id : visited.get "id" ≠ none → ce.entity.id = entityIdLD entity.id
  type : visited.get "type" ≠ none → ce.entity.type = entity.type
  location : Located ce.metadata (if visited.get "location" = none then none else location)
  attributes : ∀ k, toLower k ∉ entityNames →
    bundle (propertiesOf ce.attributes k) = visited.get k
  sent : ∀ attr ∈ ce.attributes, Sent attr ∧ toLower attr.name ∉ entityNames

variable {addAtContext : Bool} {entity : EntityId} {location : Option Point}
  {visited : GoMap Value}

theorem ReadSoFar.visitAttribute (h : ReadSoFar entity location visited ce)
    (hfree : toLower k ∉ entityNames) (hnew : visited.get k = none) {attrs : List ContextAttribute}
    (hattrs : ∀ attr ∈ attrs, attr.name = k ∧ Sent attr)
    (hv : bundle (attrs.map (fun attr => ofMap (propertyValue attr))) = some v) :
    ReadSoFar entity location (visited.set k v)
      { ce with attributes := ce.attributes ++ attrs } := by
  have hother : ∀ name ∈ entityNames, (visited.set k v).get name = visited.get name := by
    intro name hname
    refine GoMap.get_set_ne _ _ (fun heq => hfree ?_)
    rwa [← heq, toLower_of_mem_entityNames _ hname]
  refine ⟨?_, ?_, ?_, fun k' hk' => ?_, ?_⟩
  · rw [hother "id" (by decide)]
    exact h.id
  · rw [hother "type" (by decide)]
    exact h.type
  · rw [hother "location" (by decide)]
    exact h.location
  · rw [propertiesOf_append, GoMap.get_set]
    split_ifs with hk
    · subst hk
      have hnone := h.attributes k' hk'
      rw [hnew, bundle_eq_none] at hnone
      have hall : named ContextAttribute.name k' attrs = attrs :=
        List.filter_eq_self.mpr (fun attr hattr => by simp [(hattrs attr hattr).1])
      rw [hnone, List.nil_append, propertiesOf, hall, hv]
    · have hnil : propertiesOf attrs k' = [] := propertiesOf_eq_nil
        (fun attr hattr heq => hk (heq.symm.trans (hattrs attr hattr).1))
      rw [hnil, List.append_nil]
      exact h.attributes k' hk'
  · intro attr hattr
    rcases List.mem_append.mp hattr with hold | hnew
    · exact h.sent attr hold
    · obtain ⟨rfl, hsent⟩ := hattrs attr hnew
      exact ⟨hsent, hfree⟩

theorem ReadSoFar.visitName (h : ReadSoFar entity location visited ce)
    (hname : k ∈ entityNames) {next : ContextElement} (hattrs : next.attributes = ce.attributes)
    (hid : next.entity.id = entityIdLD entity.id ∨ k ≠ "id" ∧ next.entity.id = ce.entity.id)
    (htype : next.entity.type = entity.type ∨ k ≠ "type" ∧ next.entity.type = ce.entity.type)
    (hlocation : k = "location" ∧ Located next.metadata location ∨
      k ≠ "location" ∧ next.metadata = ce.metadata) :
    ReadSoFar entity location (visited.set k v) next := by
  refine ⟨fun hvisited => ?_, fun hvisited => ?_, ?_, fun k' hk' => ?_, ?_⟩
  · rcases hid with hid | ⟨hne, hid⟩
    · exact hid
    · rw [GoMap.get_set_ne _ _ (Ne.symm hne)] at hvisited
      rw [hid, h.id hvisited]
  · rcases htype with htype | ⟨hne, htype⟩
    · exact htype
    · rw [GoMap.get_set_ne _ _ (Ne.symm hne)] at hvisited
      rw [htype, h.type hvisited]
  · rcases hlocation with ⟨rfl, hlocation⟩ | ⟨hne, hlocation⟩
    · rwa [GoMap.get_set_self, if_neg (by simp)]
    · rw [GoMap.get_set_ne _ _ (Ne.symm hne), hlocation]
      exact h.location
  · have hne : k' ≠ k := by
      rintro rfl
      rw [toLower_of_mem_entityNames _ hname] at hk'
      exact hk' hname
    rw [hattrs, GoMap.get_set_ne _ _ hne]
    exact h.attributes k' hk'
  · rw [hattrs]
    exact h.sent

theorem readEntry_ldEntity (orders : Orders)
    (hm : LdEntity rawMessage addAtContext entity location m)
    (hmem : m.get k = some v) (hnew : visited.get k = none)
    (h : ReadSoFar entity location visited ce) :
    ∃ next, readEntry orders ce ⟨k, v⟩ = .ok next ∧
      ReadSoFar entity location (visited.set k v) next := by
  by_cases hfree : toLower k ∈ entityNames
  · have hname := hm.names k (by simp [hmem]) hfree
    have hlower := toLower_of_mem_entityNames k hname
    have hcases : k = "id" ∨ k = "type" ∨ k = "@context" ∨ k = "location" := by
      simpa [entityNames] using hname
    rcases hcases with rfl | rfl | rfl | rfl
    · rw [hm.entity _ (by decide), get_entityLD_id] at hmem
      obtain rfl := Option.some.inj hmem
      refine ⟨{ ce with entity := { ce.entity with id := entityIdLD entity.id } }, ?_,
        h.visitName hname rfl (.inl rfl) (.inr ⟨by decide, rfl⟩) (.inr ⟨by decide, rfl⟩)⟩
      simp only [readEntry, hlower, asString, ok_bind]
    · rw [hm.entity _ (by decide), get_entityLD_type] at hmem
      obtain rfl := Option.some.inj hmem
      refine ⟨{ ce with entity := { ce.entity with type := entity.type } }, ?_,
        h.visitName hname rfl (.inr ⟨by decide, rfl⟩) (.inl rfl) (.inr ⟨by decide, rfl⟩)⟩
      simp only [readEntry, hlower, asString, ok_bind]
    · refine ⟨ce, ?_, h.visitName hname rfl (.inr ⟨by decide, rfl⟩) (.inr ⟨by decide, rfl⟩)
        (.inr ⟨by decide, rfl⟩)⟩
      simp only [readEntry, hlower]
    · rw [hm.location] at hmem
      obtain ⟨p, hp, rfl⟩ := Option.map_eq_some_iff.mp hmem
      refine ⟨_, readEntry_location p, h.visitName hname rfl (.inr ⟨by decide, rfl⟩)
        (.inr ⟨by decide, rfl⟩) (.inl ⟨rfl, ?_⟩)⟩
      have hnowhere := h.location
      rw [if_pos hnew] at hnowhere
      have hempty : ce.metadata = [] := by
        generalize ce.metadata = metadata at hnowhere
        cases hnowhere
        rfl
      rw [hp]
      simp only [hempty, List.nil_append]
      exact .point p _
  · obtain ⟨hk, properties, hread, hv⟩ := hm.attributes k v hmem hfree
    obtain ⟨attrs, hattrs, hall, hwritten⟩ := readEntry_bundle orders ce
      hread hk hfree hv
    exact ⟨_, hattrs, h.visitAttribute hfree hnew hall hwritten⟩

theorem readFromNGSILD_ldEntity (orders : Orders)
    (hm : LdEntity rawMessage addAtContext entity location m) :
    ∃ elem, ContextElement.readFromNGSILD orders .zero m = .ok (true, elem) ∧
      ReadSoFar entity location m elem := by
  have hinit : ReadSoFar entity location ∅ .zero :=
    ⟨fun h => absurd rfl h, fun h => absurd rfl h, .nowhere, fun _ _ => rfl,
      fun _ h => absurd h List.not_mem_nil⟩
  obtain ⟨visited, elem, hloop, h, hvisited⟩ := foldlM_range_total orders.entity hinit
    (fun _ _ _ _ hmem hnew h => readEntry_ldEntity orders hm hmem hnew h)
  have hid : (m.get "id").isNone = false := by
    rw [hm.entity _ (by decide), get_entityLD_id]
    rfl
  have htype : (m.get "type").isNone = false := by
    rw [hm.entity _ (by decide), get_entityLD_type]
    rfl
  have hzero : { ContextElement.zero with attributes := [] } = ContextElement.zero := rfl
  refine ⟨elem, ?_, ?_⟩
  · simp only [ContextElement.readFromNGSILD, hid, htype, Bool.or_self, Bool.false_eq_true,
      if_false, hzero, hloop, ok_bind]
  · exact ⟨by rw [← hvisited]; exact h.id, by rw [← hvisited]; exact h.type,
      by rw [← hvisited]; exact h.location, fun k hk => by rw [← hvisited, h.attributes k hk],
      h.sent⟩

-- encoding what has been decoded gives back what was decoded
theorem reencode_ldEntity (hm : LdEntity rawMessage addAtContext entity location m)
    (h : ReadSoFar entity location m ce) :
    ∃ elementLD, toElementLD addAtContext ce = .ok elementLD ∧
      ∀ k, elementLD.get k = m.get k := by
  have hlocation : Located ce.metadata location := by
    have hread := h.location
    rw [hm.location] at hread
    cases location with
    | none => exact hread
    | some p => exact hread
  obtain ⟨elementLD, helement, hget⟩ := get_toElementLD addAtContext
    (fun attr hattr => (h.sent attr hattr).1) (fun attr hattr => (h.sent attr hattr).2) hlocation
  have hentity : entityLD addAtContext ce.entity = entityLD addAtContext entity :=
    entityLD_congr
      (h.id (by rw [hm.entity _ (by decide), get_entityLD_id]; simp))
      (h.type (by rw [hm.entity _ (by decide), get_entityLD_type]; simp))
  have hempty : ∀ k, toLower k ∈ entityNames → propertiesOf ce.attributes k = [] :=
    fun k hk => propertiesOf_eq_nil (fun attr hattr heq => (h.sent attr hattr).2 (heq ▸ hk))
  refine ⟨elementLD, helement, fun k => ?_⟩
  rw [hget, hentity]
  split_ifs with hk
  · rw [hk, hm.location]
  · by_cases hmem : k ∈ ["id", "type", "@context"]
    · have hname : k ∈ entityNames := mem_entityNames.mpr (.inl hmem)
      rw [hempty k (by rwa [toLower_of_mem_entityNames k hname]), hm.entity k hmem]
      rfl
    · rw [get_entityLD _ _ hmem, Option.or_none]
      by_cases hfree : toLower k ∈ entityNames
      · rw [hempty k hfree]
        by_contra hne
        have hname := hm.names k (fun hnone => hne (by rw [hnone]; rfl)) hfree
        exact (mem_entityNames.mp hname).elim hmem hk
      · exact h.attributes k hfree

-- the elements that a payload can carry in full
structure Reencodable (rawMessage : String → Json) (e : ContextElement) : Prop where
  name : ∀ attr ∈ e.attributes, attr.name ≠ "" ∧ toLower attr.name ∉ entityNames
  type : ∀ attr ∈ e.attributes, attr.type ≠ ""
  value : ∀ attr ∈ e.attributes, marshal rawMessage attr.value ≠ .null
  metadata : ∀ attr ∈ e.attributes, ∀ metadata ∈ attr.metadata,
    toLower metadata.name ∉ reservedNames attr
  location : ∃ location, Located e.metadata location

theorem received_bundle (properties : List Value) :
    (bundle properties).map (received rawMessage) =
      bundle (properties.map (received rawMessage)) := by
  match properties with
  | [] => rfl
  | [_] => rfl
  | _ :: _ :: _ => simp only [bundle, Option.map_some, received_array, List.map_cons]

theorem received_typed (typeName key : String) (value : Value) :
    received rawMessage (ofMap (typed typeName key value)) =
      ofMap (typed typeName key (received rawMessage value)) := by
  rw [received_ofMap]
  refine ofMap_congr (fun k => ?_)
  rw [get_receivedMap, get_typed, get_typed]
  split_ifs <;> rfl

theorem received_geoProperty (p : Point) :
    received rawMessage (ofMap (geoProperty p)) = ofMap (geoProperty p) := by
  simp only [geoProperty, pointLocation, received_typed, received_array, List.map_cons,
    List.map_nil, received_number]

theorem received_entityLD :
    ((entityLD addAtContext entity).get k).map (received rawMessage) =
      (entityLD addAtContext entity).get k := by
  have hstring : ∀ v, (entityLD addAtContext entity).get k = some v → ∃ s, v = .string s := by
    unfold entityLD
    intro v hv
    split_ifs at hv <;> simp only [GoMap.get_set, GoMap.get_empty] at hv <;>
      split_ifs at hv <;> exact ⟨_, (Option.some.inj hv).symm⟩
  cases hget : (entityLD addAtContext entity).get k with
  | none => rfl
  | some v =>
    obtain ⟨s, rfl⟩ := hstring v hget
    rfl

theorem Reencodable.sent {e : ContextElement} (h : Reencodable rawMessage e) :
    ∀ attr ∈ e.attributes, Sent attr :=
  fun attr hattr => ⟨(h.name attr hattr).1, h.type attr hattr,
    ne_null_of_marshal (h.value attr hattr)⟩

-- what the payload of the element holds once it has been received
theorem Reencodable.ldEntity {e : ContextElement} (h : Reencodable rawMessage e)
    (hlocated : Located e.metadata location)
    (hm : ∀ k, m.get k = (if k = "location" then location.map (fun p => ofMap (geoProperty p))
      else (bundle (propertiesOf e.attributes k)).or
        ((entityLD addAtContext e.entity).get k)).map (received rawMessage)) :
    LdEntity rawMessage addAtContext e.entity location m := by
  have hempty : ∀ k, toLower k ∈ entityNames → propertiesOf e.attributes k = [] :=
    fun k hk => propertiesOf_eq_nil (fun attr hattr heq => (h.name attr hattr).2 (heq ▸ hk))
  refine ⟨fun k hk => ?_, ?_, fun k hk hlower => ?_, fun k v hv hfree => ?_⟩
  · have hname : k ∈ entityNames := mem_entityNames.mpr (.inl hk)
    have hne : k ≠ "location" := by
      rintro rfl
      exact absurd hk (by decide)
    rw [hm, if_neg hne, hempty k (by rwa [toLower_of_mem_entityNames k hname])]
    exact received_entityLD
  · rw [hm, if_pos rfl]
    cases location with
    | none => rfl
    | some p => rw [Option.map_some, Option.map_some, received_geoProperty]
  · by_contra hname
    rw [mem_entityNames, not_or] at hname
    rw [hm, if_neg hname.2, hempty k hlower, get_entityLD _ _ hname.1] at hk
    exact hk rfl
  · have hname : k ∉ entityNames :=
      fun hmem => hfree (by rwa [toLower_of_mem_entityNames k hmem])
    rw [mem_entityNames, not_or] at hname
    rw [hm, if_neg hname.2, get_entityLD _ _ hname.1, Option.or_none, received_bundle] at hv
    have hmap : (propertiesOf e.attributes k).map (received rawMessage) =
        ((named ContextAttribute.name k e.attributes).map
          (fun attr => receivedMap rawMessage (propertyValue attr))).map ofMap := by
      simp only [propertiesOf, List.map_map]
      exact List.map_congr_left (fun attr _ => received_ofMap _)
    rw [hmap] at hv
    refine ⟨?_, _, ?_, hv⟩
    · rintro rfl
      have hnone : named ContextAttribute.name "" e.attributes = [] := by
        rw [List.eq_nil_iff_forall_not_mem]
        intro attr hattr
        obtain ⟨hattr, hempty⟩ := mem_named.mp hattr
        exact (h.name attr hattr).1 hempty
      rw [hnone] at hv
      exact absurd hv (by simp [bundle])
    · intro property hproperty
      obtain ⟨attr, hattr, rfl⟩ := List.mem_map.mp hproperty
      obtain ⟨hattr, -⟩ := mem_named.mp hattr
      exact (readable_propertyValue (h.value attr hattr) (h.metadata attr hattr)).received

-- an attribute whose values have come out of the decoder, which leaves them as they are
structure Decoded (rawMessage : String → Json) (attr : ContextAttribute) : Prop where
  value : received rawMessage attr.value = attr.value
  metadata : ∀ metadata ∈ attr.metadata, received rawMessage metadata.value = metadata.value

theorem Decoded.bareProperty {attr : ContextAttribute} (h : Decoded rawMessage attr) :
    ∃ typeName key v, bareProperty attr = typed typeName key v ∧ received rawMessage v = v := by
  by_cases hrel : toLower attr.type = "relationship"
  · exact ⟨_, _, _, bareProperty_relationship hrel, h.value⟩
  · by_cases hdate : toLower attr.type = "datetime"
    · refine ⟨"Property", "value", ofMap (datetimeValue attr.value), ?_, ?_⟩
      · simp only [Broker.bareProperty, hdate]
      · rw [received_ofMap]
        refine ofMap_congr (fun k => ?_)
        rw [get_receivedMap, datetimeValue, GoMap.get_set, GoMap.get_set, GoMap.get_empty]
        split_ifs
        · rw [Option.map_some, h.value]
        · rfl
        · rfl
    · exact ⟨_, _, _, bareProperty_plain (by simp [hrel, hdate]), h.value⟩

theorem Decoded.propertyValue {attr : ContextAttribute} (h : Decoded rawMessage attr) :
    received rawMessage (ofMap (propertyValue attr)) = ofMap (propertyValue attr) := by
  rw [received_ofMap]
  refine ofMap_congr (fun k => ?_)
  obtain ⟨typeName, key, v, hbare, hv⟩ := h.bareProperty
  rw [get_receivedMap, get_propertyValue, Option.map_or, hbare]
  congr 1
  · cases hlast : (named ContextMetadata.name k attr.metadata).getLast? with
    | none => rfl
    | some metadata =>
      obtain ⟨hmem, -⟩ := mem_named.mp (List.mem_of_getLast? hlast)
      rw [Option.map_some, Option.map_some, h.metadata metadata hmem]
  · rw [get_typed]
    split_ifs
    · rw [Option.map_some, hv]
    · rfl
    · rfl

theorem Decoded.bundle {e : ContextElement} (h : ∀ attr ∈ e.attributes, Decoded rawMessage attr) :
    (bundle (propertiesOf e.attributes k)).map (received rawMessage) =
      bundle (propertiesOf e.attributes k) := by
  have hmap : (propertiesOf e.attributes k).map (received rawMessage) =
      propertiesOf e.attributes k := by
    rw [propertiesOf, List.map_map]
    exact List.map_congr_left (fun attr hattr => (h attr (mem_named.mp hattr).1).propertyValue)
  rw [received_bundle, hmap]

theorem reencoding_stable (orders : Orders) (addAtContext : Bool) {e : ContextElement}
    (h : Reencodable rawMessage e) :
    ∃ payload ngsildEntity e' payload',
      toNGSILDPayload [e] addAtContext = .ok [payload] ∧
      unmarshalMap (marshal rawMessage (ofMap payload)) = some ngsildEntity ∧
      ContextElement.readFromNGSILD orders .zero ngsildEntity = .ok (true, e') ∧
      toNGSILDPayload [e'] addAtContext = .ok [payload'] ∧
      (∀ k, payload'.get k = ngsildEntity.get k) ∧
      unmarshal (marshal rawMessage (ofMap payload')) =
        unmarshal (marshal rawMessage (ofMap payload)) ∧
      ((∀ attr ∈ e.attributes, Decoded rawMessage attr) →
        ∀ k, payload'.get k = payload.get k) := by
  obtain ⟨location, hlocated⟩ := h.location
  obtain ⟨payload, hpayload, hget⟩ := get_toElementLD addAtContext h.sent
    (fun attr hattr => (h.name attr hattr).2) hlocated
  obtain ⟨ngsildEntity, hentity, hreceived⟩ := unmarshalMap_marshal rawMessage payload
  have hld : LdEntity rawMessage addAtContext e.entity location ngsildEntity :=
    h.ldEntity hlocated (fun k => by rw [hreceived, hget])
  obtain ⟨e', he', hread⟩ := readFromNGSILD_ldEntity orders hld
  obtain ⟨payload', hpayload', hsame⟩ := reencode_ldEntity hld hread
  have hone : ∀ {elem elementLD}, toElementLD addAtContext elem = .ok elementLD →
      toNGSILDPayload [elem] addAtContext = .ok [elementLD] := by
    intro elem elementLD helement
    rw [toNGSILDPayload, List.mapM_cons, List.mapM_nil, helement]
    rfl
  refine ⟨payload, ngsildEntity, e', payload', hone hpayload, hentity, he', hone hpayload',
    hsame, ?_, fun hdecoded k => ?_⟩
  · change received rawMessage (ofMap payload') = received rawMessage (ofMap payload)
    rw [received_ofMap, received_ofMap]
    refine ofMap_congr (fun k => ?_)
    rw [get_receivedMap, get_receivedMap, hsame, hreceived, Option.map_map]
    congr 1
    exact funext received_received
  · rw [hsame, hreceived, hget]
    split_ifs with hk
    · cases location with
      | none => rfl
      | some p => rw [Option.map_some, Option.map_some, received_geoProperty]
    · rw [Option.map_or, Decoded.bundle hdecoded, received_entityLD]

def parkedCar : ContextElement where
  entity := ⟨"Car", false, "car1"⟩
  type := ""
  attributes :=
    [⟨"speed", "float", .number 30, [⟨"unit", "string", .string "km/h", .null⟩]⟩,
      ⟨"owner", "Relationship", .string "urn:Person:1", []⟩,
      ⟨"speed", "float", .number 35, []⟩,
      ⟨"seenAt", "DateTime", .string "2024-01-01", [⟨"by", "string", .string "gate", .null⟩]⟩]
  metadata := [⟨"location", "point", .point ⟨49, 8⟩, .null⟩]

theorem parkedCar_reencodable (rawMessage : String → Json) : Reencodable rawMessage parkedCar := by
  refine ⟨by decide, by decide, ?_, by decide, ⟨_, .point ⟨49, 8⟩ .null⟩⟩
  simp [parkedCar, marshal]

theorem parkedCar_stable :
    ∃ payload ngsildEntity e' payload',
      toNGSILDPayload [parkedCar] true = .ok [payload] ∧
      unmarshalMap (marshal (fun _ => .null) (ofMap payload)) = some ngsildEntity ∧
      ContextElement.readFromNGSILD ⟨String.length, fun _ _ => String.length⟩ .zero
        ngsildEntity = .ok (true, e') ∧
      toNGSILDPayload [e'] true = .ok [payload'] ∧
      ∀ k, payload'.get k = payload.get k := by
  obtain ⟨payload, ngsildEntity, e', payload', hpayload, hentity, he', hpayload', -, -, hsame⟩ :=
    reencoding_stable ⟨String.length, fun _ _ => String.length⟩ true
      (parkedCar_reencodable (fun _ => .null))
  refine ⟨payload, ngsildEntity, e', payload', hpayload, hentity, he', hpayload', hsame ?_⟩
  intro attr hattr
  simp only [parkedCar, List.mem_cons, List.not_mem_nil, or_false] at hattr
  rcases hattr with rfl | rfl | rfl | rfl <;> exact ⟨rfl, by simp⟩

end FogFlow.Broker
