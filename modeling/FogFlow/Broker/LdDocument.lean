import FogFlow.Broker.Reencoding
import FogFlow.Broker.StoredAttributes

namespace FogFlow.Broker.LdDocument

open Ngsi Fields Loop Named

-- an entity as its NGSI-LD clients see it: the value of each member that it has
abbrev Document := String → Option Value

def fixedNames : List String := ["id", "type", "@context"]

-- an upsert replaces the members that it names, and an entity keeps what it was created as
def Document.merge (old new : Document) : Document := fun k =>
  if k ∈ fixedNames then old k else (new k).or (old k)

def Document.shown (doc : Document) : Document := fun k =>
  if k = "id" then (doc "id").map (fun
    | .string id => .string (entityIdLD id)
    | v => v)
  else if k = "@context" then some (.string ngsildCoreContext)
  else doc k

-- an entity in the form of the interface, under any id and any context
structure Described (rawMessage : String → Json) (id type : String) (location : Option Point)
    (m : GoMap Value) : Prop where
  id : m.get "id" = some (.string id)
  type : m.get "type" = some (.string type)
  location : m.get "location" = location.map (fun p => ofMap (geoProperty p))
  names : ∀ k, m.get k ≠ none → toLower k ∈ entityNames → k ∈ entityNames
  attributes : ∀ k v, m.get k = some v → toLower k ∉ entityNames → k ≠ "" ∧
    ∃ properties : List (GoMap Value),
      (∀ property ∈ properties, Readable rawMessage property) ∧
      bundle (properties.map ofMap) = some v

-- the element that stands for a document
structure Stands (id type : String) (location : Option Point) (doc : Document)
    (e : ContextElement) : Prop where
  id : e.entity.id = id ∧ doc "id" = some (.string id)
  type : e.entity.type = type ∧ doc "type" = some (.string type)
  location : Located e.metadata location ∧
    doc "location" = location.map (fun p => ofMap (geoProperty p))
  names : ∀ k, doc k ≠ none → toLower k ∈ entityNames → k ∈ entityNames
  attributes : ∀ k, toLower k ∉ entityNames → bundle (propertiesOf e.attributes k) = doc k
  sent : ∀ attr ∈ e.attributes, Sent attr ∧ toLower attr.name ∉ entityNames

section Read

variable {rawMessage : String → Json} {id type : String} {location : Option Point}
  {m visited : GoMap Value} {ce : ContextElement} {k : String} {v : Value} {orders : Orders}

-- the entity under the id that it is encoded with, and without its context
def renamed (id : String) (m : GoMap Value) : GoMap Value :=
  (m.delete "@context").set "id" (.string (entityIdLD id))

theorem get_renamed (hid : k ≠ "id") (hcontext : k ≠ "@context") :
    (renamed id m).get k = m.get k := by
  rw [renamed, GoMap.get_set_ne _ _ hid, GoMap.get_delete, if_neg hcontext]

theorem Described.renamed (h : Described rawMessage id type location m) :
    LdEntity rawMessage false ⟨type, false, id⟩ location (renamed id m) := by
  constructor
  · intro k hk
    simp only [List.mem_cons, List.not_mem_nil, or_false] at hk
    rcases hk with rfl | rfl | rfl
    · rw [get_entityLD_id, LdDocument.renamed, GoMap.get_set_self]
    · rw [get_entityLD_type, get_renamed (by decide) (by decide), h.type]
    · rw [LdDocument.renamed, GoMap.get_set_ne _ _ (by decide), GoMap.get_delete, if_pos rfl]
      simp [entityLD, GoMap.get_set]
  · rw [get_renamed (by decide) (by decide), h.location]
  · intro k hk hlower
    by_cases hid : k = "id"
    · rw [hid]
      decide
    · by_cases hcontext : k = "@context"
      · rw [hcontext]
        decide
      · rw [get_renamed hid hcontext] at hk
        exact h.names k hk hlower
  · intro k v hv hfree
    have hne : ∀ name ∈ entityNames, k ≠ name := by
      rintro name hname rfl
      exact hfree (by rwa [toLower_of_mem_entityNames _ hname])
    rw [get_renamed (hne "id" (by decide)) (hne "@context" (by decide))] at hv
    exact h.attributes k v hv hfree

-- the decoder has read the id as it is written, and all else as if it were encoded
structure ReadAs (id type : String) (location : Option Point) (visited : GoMap Value)
    (ce : ContextElement) : Prop where
  rest : ReadSoFar ⟨type, false, id⟩ location (visited.delete "id") ce
  id : visited.get "id" ≠ none → ce.entity.id = id

theorem readSoFar_congr {entity : EntityId} {visited' : GoMap Value}
    (h : ReadSoFar entity location visited ce) (hget : ∀ k, visited'.get k = visited.get k) :
    ReadSoFar entity location visited' ce :=
  ⟨fun hid => h.id (by rwa [← hget]), fun htype => h.type (by rwa [← hget]),
    by rw [hget]; exact h.location, fun k hk => by rw [hget]; exact h.attributes k hk, h.sent⟩

theorem get_delete_set (hk : k ≠ "id") (k' : String) :
    ((visited.set k v).delete "id").get k' = ((visited.delete "id").set k v).get k' := by
  simp only [GoMap.get_delete, GoMap.get_set]
  split_ifs with hid hk'
  · exact absurd (hk'.symm.trans hid) hk
  · rfl
  · rfl
  · rfl

theorem entity_readItem {item : Value × Nat} {next : ContextElement}
    (h : readItem orders k ce item = .ok next) : next.entity = ce.entity := by
  unfold readItem at h
  split at h
  · obtain ⟨attr, -, hnext⟩ := bind_eq_ok.mp h
    rw [← Except.ok.inj hnext, ContextElement.addAttribute]
    split_ifs <;> rfl
  · rw [← Except.ok.inj h]

-- no other member has a say in the id
theorem id_readEntry {next : ContextElement} (h : readEntry orders ce ⟨k, v⟩ = .ok next)
    (hk : toLower k ≠ "id") : next.entity.id = ce.entity.id := by
  unfold readEntry at h
  dsimp only at h
  split at h
  case h_1 hid => exact absurd hid hk
  case h_2 =>
    obtain ⟨s, -, hnext⟩ := bind_eq_ok.mp h
    rw [← Except.ok.inj hnext]
  case h_3 => rw [← Except.ok.inj h]
  case h_4 =>
    split at h
    · obtain ⟨item, hitem, hnext⟩ := bind_eq_ok.mp h
      have hentity := entity_readItem hitem
      split_ifs at hnext
      · obtain ⟨domainMetadata, -, hnext⟩ := bind_eq_ok.mp hnext
        rw [← Except.ok.inj hnext, ← hentity]
      · obtain ⟨s, -, hnext⟩ := bind_eq_ok.mp hnext
        rw [← Except.ok.inj hnext, hentity]
    · have hentity : next.entity = ce.entity := by
        refine foldlM_invariant (I := fun _ acc => acc.entity = ce.entity) h rfl ?_
        intro done item rest acc next _ hacc hitem
        rw [entity_readItem hitem, hacc]
      rw [hentity]
    · rw [← Except.ok.inj h]

theorem readEntry_described (h : Described rawMessage id type location m) (orders : Orders)
    (hmem : m.get k = some v) (hnew : visited.get k = none)
    (hread : ReadAs id type location visited ce) :
    ∃ next, readEntry orders ce ⟨k, v⟩ = .ok next ∧
      ReadAs id type location (visited.set k v) next := by
  have hlower : toLower k ∈ entityNames → toLower k = k := fun hname =>
    toLower_of_mem_entityNames k (h.names k (by simp [hmem]) hname)
  by_cases hid : k = "id"
  · subst hid
    obtain rfl := Option.some.inj (h.id.symm.trans hmem)
    refine ⟨{ ce with entity := { ce.entity with id := id } }, ?_, ?_, fun _ => rfl⟩
    · simp only [readEntry, hlower (by decide), asString, ok_bind]
    · obtain ⟨hfirst, htype, hlocation, hattrs, hsent⟩ := hread.rest
      have hsame : ∀ k', ((visited.set "id" (.string id)).delete "id").get k' =
          (visited.delete "id").get k' := by
        intro k'
        simp only [GoMap.get_delete, GoMap.get_set]
        split_ifs <;> rfl
      refine readSoFar_congr ⟨fun hvisited => ?_, htype, hlocation, hattrs, hsent⟩ hsame
      exact absurd (by rw [GoMap.get_delete, if_pos rfl]) hvisited
  · have hother : toLower k ≠ "id" := by
      intro heq
      have hsame := hlower (by rw [heq]; decide)
      exact hid (hsame.symm.trans heq)
    have hdelete : (visited.delete "id").get k = none := by
      rw [GoMap.get_delete, if_neg hid, hnew]
    have hnext : ∃ next, readEntry orders ce ⟨k, v⟩ = .ok next ∧
        ReadSoFar ⟨type, false, id⟩ location ((visited.delete "id").set k v) next := by
      by_cases hcontext : k = "@context"
      · subst hcontext
        refine ⟨ce, ?_, hread.rest.visitName (by decide) rfl (.inr ⟨by decide, rfl⟩)
          (.inr ⟨by decide, rfl⟩) (.inr ⟨by decide, rfl⟩)⟩
        simp only [readEntry, hlower (by decide)]
      · exact readEntry_ldEntity orders h.renamed
          (by rw [get_renamed hid hcontext]; exact hmem) hdelete hread.rest
    obtain ⟨next, hentry, hnext⟩ := hnext
    refine ⟨next, hentry, readSoFar_congr hnext (get_delete_set hid), fun hvisited => ?_⟩
    rw [id_readEntry hentry hother]
    rw [GoMap.get_set_ne _ _ (Ne.symm hid)] at hvisited
    exact hread.id hvisited

theorem readFromNGSILD_described (orders : Orders)
    (h : Described rawMessage id type location m) :
    ∃ e, ContextElement.readFromNGSILD orders .zero m = .ok (true, e) ∧
      Stands id type location m.get e := by
  have hinit : ReadAs id type location ∅ .zero :=
    ⟨⟨fun hid => absurd rfl hid, fun htype => absurd rfl htype, .nowhere, fun _ _ => rfl,
      fun _ hmem => absurd hmem List.not_mem_nil⟩, fun hid => absurd rfl hid⟩
  obtain ⟨visited, e, hloop, hread, hvisited⟩ := foldlM_range_total orders.entity hinit
    (fun _ _ _ _ hmem hnew hacc => readEntry_described h orders hmem hnew hacc)
  refine ⟨e, ?_, ?_⟩
  · have hzero : { ContextElement.zero with attributes := [] } = ContextElement.zero := rfl
    simp only [ContextElement.readFromNGSILD, h.id, h.type, Option.isNone_some, Bool.or_self,
      Bool.false_eq_true, if_false, hzero, hloop, ok_bind]
  · have hget : ∀ k, k ≠ "id" → (visited.delete "id").get k = m.get k := by
      intro k hk
      rw [GoMap.get_delete, if_neg hk, hvisited]
    have hlocation : Located e.metadata location := by
      have hlocated := hread.rest.location
      rw [hget _ (by decide), h.location] at hlocated
      cases location <;> exact hlocated
    refine ⟨⟨hread.id (by rw [hvisited, h.id]; simp), h.id⟩,
      ⟨hread.rest.type (by rw [hget _ (by decide), h.type]; simp), h.type⟩,
      ⟨hlocation, h.location⟩, h.names, fun k hk => ?_, hread.rest.sent⟩
    rw [hread.rest.attributes k hk]
    refine hget k ?_
    rintro rfl
    exact hk (by decide)

end Read

section Merge

variable {id type : String} {location location' : Option Point} {doc new : Document}
  {e e' : ContextElement}

theorem bundle_updateAttributes (current new : List ContextAttribute) (k : String) :
    bundle (propertiesOf (updateAttributes current new) k) =
      (bundle (propertiesOf new k)).or (bundle (propertiesOf current k)) := by
  have hnamed := named_updateAttributes current new k
  by_cases hnew : new.any (fun attr => attr.name == k) = true
  · rw [if_pos hnew] at hnamed
    obtain ⟨attr, hattr, hname⟩ := List.any_eq_true.mp hnew
    have hsome : bundle (propertiesOf new k) ≠ none := by
      rw [Ne, bundle_eq_none, propertiesOf, List.map_eq_nil_iff]
      exact List.ne_nil_of_mem (mem_named.mpr ⟨hattr, beq_iff_eq.mp hname⟩)
    obtain ⟨v, hv⟩ := Option.ne_none_iff_exists'.mp hsome
    rw [propertiesOf, hnamed, ← propertiesOf, hv, Option.some_or]
  · rw [if_neg hnew] at hnamed
    have hnone : propertiesOf new k = [] := propertiesOf_eq_nil (fun attr hattr hname =>
      hnew (List.any_eq_true.mpr ⟨attr, hattr, beq_iff_eq.mpr hname⟩))
    rw [propertiesOf, hnamed, ← propertiesOf, hnone]
    rfl

theorem located_foldl {current metadata : List ContextMetadata}
    (h : Located current location) (h' : Located metadata location') :
    Located (metadata.foldl (fun current metadata => updateDomainMetadata metadata current) current)
      (location'.or location) := by
  cases h' with
  | nowhere => exact h
  | point p cordinates =>
    cases h with
    | nowhere => exact .point p cordinates
    | point p' cordinates' => exact .point p cordinates'

theorem Stands.merge (h : Stands id type location doc e) {type' : String}
    (h' : Stands id type' location' new e') :
    Stands id type (location'.or location) (doc.merge new) (applyUpdate e e') := by
  refine ⟨⟨h.id.1, ?_⟩, ⟨h.type.1, ?_⟩, ⟨located_foldl h.location.1 h'.location.1, ?_⟩,
    fun k hk hlower => ?_, fun k hk => ?_, fun attr hattr => ?_⟩
  · rw [Document.merge, if_pos (by decide), h.id.2]
  · rw [Document.merge, if_pos (by decide), h.type.2]
  · rw [Document.merge, if_neg (by decide), h.location.2, h'.location.2, Option.map_or]
  · unfold Document.merge at hk
    split_ifs at hk
    · exact h.names k hk hlower
    · cases hnew : new k with
      | none =>
        rw [hnew, Option.none_or] at hk
        exact h.names k hk hlower
      | some v => exact h'.names k (by simp [hnew]) hlower
  · have hfree : k ∉ fixedNames := by
      intro hmem
      have hname : k ∈ entityNames := mem_entityNames.mpr (.inl hmem)
      exact hk (by rwa [toLower_of_mem_entityNames k hname])
    rw [Document.merge, if_neg hfree, ← h.attributes k hk, ← h'.attributes k hk]
    exact bundle_updateAttributes e.attributes e'.attributes k
  · rcases List.mem_append.mp hattr with hold | hnew
    · exact h.sent attr (List.mem_filter.mp hold).1
    · exact h'.sent attr hnew

-- a query encodes the element back into what its document shows
theorem Stands.encoded (h : Stands id type location doc e) :
    ∃ payload, toElementLD true e = .ok payload ∧ ∀ k, payload.get k = doc.shown k := by
  obtain ⟨payload, hpayload, hget⟩ := get_toElementLD true
    (fun attr hattr => (h.sent attr hattr).1) (fun attr hattr => (h.sent attr hattr).2)
    h.location.1
  refine ⟨payload, hpayload, fun k => ?_⟩
  have hempty : ∀ name ∈ entityNames, propertiesOf e.attributes name = [] :=
    fun name hname => propertiesOf_eq_nil (fun attr hattr heq =>
      (h.sent attr hattr).2 (by rwa [heq, toLower_of_mem_entityNames name hname]))
  rw [hget, Document.shown]
  by_cases hk : k = "location"
  · rw [if_pos hk, hk, if_neg (by decide), if_neg (by decide), h.location.2]
  · rw [if_neg hk]
    by_cases hid : k = "id"
    · rw [hid, if_pos rfl, hempty "id" (by decide), get_entityLD_id, h.id.1, h.id.2]
      rfl
    · rw [if_neg hid]
      by_cases hcontext : k = "@context"
      · rw [hcontext, if_pos rfl, hempty "@context" (by decide)]
        rfl
      · rw [if_neg hcontext]
        by_cases htype : k = "type"
        · rw [htype, hempty "type" (by decide), get_entityLD_type, h.type.1, h.type.2]
          rfl
        · rw [get_entityLD _ _ (by simp [hid, htype, hcontext]), Option.or_none]
          by_cases hfree : toLower k ∈ entityNames
          · have hnone : doc k = none := by
              by_contra hsome
              have hname := h.names k hsome hfree
              rcases mem_entityNames.mp hname with hfixed | hlocation
              · simp [hid, htype, hcontext] at hfixed
              · exact hk hlocation
            rw [hnone, bundle_eq_none]
            exact propertiesOf_eq_nil (fun attr hattr heq =>
              (h.sent attr hattr).2 (by rwa [heq]))
          · exact h.attributes k hfree

end Merge

end FogFlow.Broker.LdDocument
