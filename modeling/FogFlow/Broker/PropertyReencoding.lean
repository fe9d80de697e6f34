import FogFlow.Broker.NgsiLdPayload

namespace FogFlow.Broker

open Ngsi Fields Loop Named

variable {rawMessage : String → Json} {typeName key : String} {m m' : GoMap Value}
  {rank : String → Nat} {k : String}

-- a property as it is written: its type, its value under the key, and metadata beside them
structure LdProperty (rawMessage : String → Json) (typeName key : String) (m : GoMap Value) :
    Prop where
  type : m.get "type" = some (.string typeName)
  value : ∃ v, m.get key = some v ∧ received rawMessage v ≠ .null
  free : ∀ k, m.get k ≠ none → k = "type" ∨ k = key ∨ toLower k ∉ ["type", key]

def Readable (rawMessage : String → Json) (m : GoMap Value) : Prop :=
  LdProperty rawMessage "Property" "value" m ∨ LdProperty rawMessage "Relationship" "object" m

theorem LdProperty.map (h : LdProperty rawMessage typeName key m) {f : Value → Value}
    (hstring : ∀ s, f (.string s) = .string s)
    (hf : ∀ v, received rawMessage (f v) = received rawMessage v)
    (hget : ∀ k, m'.get k = (m.get k).map f) : LdProperty rawMessage typeName key m' := by
  refine ⟨by rw [hget, h.type, Option.map_some, hstring], ?_, fun k hk => h.free k ?_⟩
  · obtain ⟨v, hv, hne⟩ := h.value
    exact ⟨f v, by rw [hget, hv, Option.map_some], by rwa [hf]⟩
  · rintro hnone
    rw [hget, hnone] at hk
    exact hk rfl

theorem Readable.map (h : Readable rawMessage m) {f : Value → Value}
    (hstring : ∀ s, f (.string s) = .string s)
    (hf : ∀ v, received rawMessage (f v) = received rawMessage v)
    (hget : ∀ k, m'.get k = (m.get k).map f) : Readable rawMessage m' :=
  h.imp (fun h => h.map hstring hf hget) (fun h => h.map hstring hf hget)

theorem Readable.received (h : Readable rawMessage m) :
    Readable rawMessage (receivedMap rawMessage m) :=
  h.map (fun _ => rfl) received_received (get_receivedMap m)

theorem Readable.congr (h : Readable rawMessage m) (hget : ∀ k, m'.get k = m.get k) :
    Readable rawMessage m' :=
  h.map (fun _ => rfl) (fun _ => rfl) (fun k => by rw [hget, Option.map_id'])

theorem get_readMetadata (reserved : List String) :
    (named ContextMetadata.name k (readMetadata reserved rank m)).getLast?.map
        ContextMetadata.value =
      if toLower k ∈ reserved then none else m.get k := by
  have hmem : ∀ x, x ∈ named ContextMetadata.name k (readMetadata reserved rank m) ↔
      toLower k ∉ reserved ∧ ∃ v, m.get k = some v ∧ x = ⟨k, k, v, .null⟩ := by
    intro x
    simp only [mem_named, readMetadata, List.mem_map, List.mem_filter, decide_eq_true_eq]
    constructor
    · rintro ⟨⟨⟨k', v⟩, ⟨hrange, hfree⟩, rfl⟩, rfl⟩
      exact ⟨hfree, v, GoMap.mem_range.mp hrange, rfl⟩
    · rintro ⟨hfree, v, hv, rfl⟩
      exact ⟨⟨⟨k, v⟩, ⟨GoMap.mem_range.mpr hv, hfree⟩, rfl⟩, rfl⟩
  cases hlast : (named ContextMetadata.name k (readMetadata reserved rank m)).getLast? with
  | none =>
    rw [List.getLast?_eq_none_iff] at hlast
    rw [hlast] at hmem
    split_ifs with hreserved
    · rfl
    · cases hget : m.get k with
      | none => rfl
      | some v => exact absurd ((hmem _).mpr ⟨hreserved, v, hget, rfl⟩) List.not_mem_nil
  | some x =>
    obtain ⟨hfree, v, hv, rfl⟩ := (hmem x).mp (List.mem_of_getLast? hlast)
    rw [if_neg hfree, hv]
    rfl

-- the attribute that is read from a property is written as the same property
theorem propertyValue_of_read {a : ContextAttribute} (h : LdProperty rawMessage typeName key m)
    (hkey : toLower key = key) (hbare : bareProperty a = typed typeName key (valueAt m key))
    (hmeta : a.metadata = readMetadata ["type", key] rank m) :
    ofMap (propertyValue a) = ofMap m := by
  refine ofMap_congr (fun k => ?_)
  obtain ⟨v, hv, -⟩ := h.value
  rw [get_propertyValue, hmeta, get_readMetadata, hbare, get_typed]
  by_cases hk : k = key
  · subst hk
    rw [if_pos (by simp [hkey]), if_pos rfl, valueAt, hv]
    rfl
  · by_cases ht : k = "type"
    · subst ht
      have hlower : toLower "type" = "type" := by decide
      rw [if_pos (by simp [hlower]), if_neg hk, if_pos rfl, h.type]
      rfl
    · rw [if_neg hk, if_neg ht, Option.or_none]
      split_ifs with hreserved
      · by_contra hget
        rcases h.free k (Ne.symm hget) with he | he | he
        · exact ht he
        · exact hk he
        · exact he hreserved
      · rfl

theorem attributeType_plain (v : Value) :
    attributeType v ≠ "" ∧ toLower (attributeType v) ∉ ["relationship", "datetime"] := by
  have hcases : attributeType v = "float" ∨ attributeType v = "string" ∨
      attributeType v = "object" := by
    cases v <;> simp [attributeType]
  rcases hcases with h | h | h <;> rw [h] <;> decide

theorem readAttribute_readable (rank : String → Nat) (h : Readable rawMessage m) (hk : k ≠ "") :
    ∃ a, readAttributeFromNGSILD rank k m = .ok a ∧ a.name = k ∧ Sent a ∧
      ofMap (propertyValue a) = ofMap m := by
  have hvalue : ∀ key, (∃ v, m.get key = some v ∧ received rawMessage v ≠ .null) →
      valueAt m key ≠ .null := by
    rintro key ⟨v, hv, hne⟩ hnull
    rw [valueAt, hv, Option.getD_some] at hnull
    rw [hnull] at hne
    exact hne rfl
  unfold readAttributeFromNGSILD
  rcases h with h | h <;>
    simp only [valueAt, h.type, Option.getD_some, asString, ok_bind]
  · rw [if_pos (by decide)]
    refine ⟨_, rfl, rfl, ⟨hk, ?_, hvalue _ h.value⟩, ?_⟩
    · exact (attributeType_plain _).1
    · exact propertyValue_of_read h (by decide) (bareProperty_plain (attributeType_plain _).2) rfl
  · rw [if_neg (by decide), if_pos (by decide)]
    have hlower : toLower "relationship" = "relationship" := by decide
    exact ⟨_, rfl, rfl, ⟨hk, by simp, hvalue _ h.value⟩,
      propertyValue_of_read h (by decide) (bareProperty_relationship hlower) rfl⟩

-- the names that the encoder itself writes beside the metadata
def reservedNames (attr : ContextAttribute) : List String :=
  if toLower attr.type = "relationship" then ["type", "object"] else ["type", "value"]

theorem ldProperty_of_bare {attr : ContextAttribute} {v : Value}
    (hbare : bareProperty attr = typed typeName key v) (hv : received rawMessage v ≠ .null)
    (hkey : key ≠ "type") (hlower : toLower key = key)
    (hmeta : ∀ metadata ∈ attr.metadata, toLower metadata.name ∉ ["type", key]) :
    LdProperty rawMessage typeName key (propertyValue attr) := by
  have hreserved : ∀ k, toLower k ∈ ["type", key] →
      named ContextMetadata.name k attr.metadata = [] := by
    intro k hk
    rw [List.eq_nil_iff_forall_not_mem]
    intro metadata hnamed
    obtain ⟨hmem, rfl⟩ := mem_named.mp hnamed
    exact hmeta metadata hmem hk
  have htype : toLower "type" = "type" := by decide
  refine ⟨?_, ⟨v, ?_, hv⟩, fun k hk => ?_⟩
  · rw [get_propertyValue, hreserved "type" (by simp [htype]), hbare, get_typed,
      if_neg (Ne.symm hkey), if_pos rfl]
    rfl
  · rw [get_propertyValue, hreserved key (by simp [hlower]), hbare, get_typed, if_pos rfl]
    rfl
  · by_contra hother
    rw [not_or, not_or, not_not] at hother
    obtain ⟨hne, hnekey, hmem⟩ := hother
    rw [get_propertyValue, hreserved k hmem, hbare, get_typed, if_neg hnekey, if_neg hne] at hk
    exact hk rfl

theorem readable_propertyValue {attr : ContextAttribute}
    (hvalue : marshal rawMessage attr.value ≠ .null)
    (hmeta : ∀ metadata ∈ attr.metadata, toLower metadata.name ∉ reservedNames attr) :
    Readable rawMessage (propertyValue attr) := by
  unfold reservedNames at hmeta
  by_cases hrel : toLower attr.type = "relationship"
  · rw [if_pos hrel] at hmeta
    exact Or.inr (ldProperty_of_bare (bareProperty_relationship hrel) (received_ne_null hvalue)
      (by decide) (by decide) hmeta)
  · rw [if_neg hrel] at hmeta
    refine Or.inl ?_
    by_cases hdate : toLower attr.type = "datetime"
    · have hbare : bareProperty attr =
          typed "Property" "value" (ofMap (datetimeValue attr.value)) := by
        simp only [bareProperty, hdate]
      refine ldProperty_of_bare hbare ?_ (by decide) (by decide) hmeta
      rw [ofMap, received_object]
      simp
    · exact ldProperty_of_bare (bareProperty_plain (by simp [hrel, hdate]))
        (received_ne_null hvalue) (by decide) (by decide) hmeta

end FogFlow.Broker
