import FogFlow.Library.Named
import FogFlow.Ngsi.Context

namespace FogFlow.Discovery

open Ngsi Named

abbrev CtxRegistrationList := GoMap EntityRegistration

def setAttributes (list : GoMap ContextRegistrationAttribute)
    (attrs : List ContextRegistrationAttribute) : GoMap ContextRegistrationAttribute :=
  attrs.foldl (fun list attr => list.set attr.name attr) list

def setMetadata (list : GoMap ContextMetadata) (metas : List ContextMetadata) :
    GoMap ContextMetadata :=
  metas.foldl (fun list metadata => list.set metadata.name metadata) list

-- the loop that deletes the attributes which the new registration does not name
def deleteOldAttributes (attrRank : String → Nat) (attrilist : GoMap ContextRegistrationAttribute)
    (list : GoMap ContextRegistrationAttribute) : GoMap ContextRegistrationAttribute :=
  (list.range attrRank).foldl (fun list attributeOld =>
    if attrilist.values.any (fun attributeNew => attributeNew.name == attributeOld.2.name) then list
    else list.delete attributeOld.2.name) list

def updateExisting (attrRank : String → Nat) (existRegistration : EntityRegistration)
    (entity : EntityId) (registration : ContextRegistration) : EntityRegistration where
  id := existRegistration.id
  type := if entity.type ≠ "" then entity.type else existRegistration.type
  attributesList := deleteOldAttributes attrRank
    (setAttributes ∅ registration.contextRegistrationAttributes)
    (setAttributes existRegistration.attributesList registration.contextRegistrationAttributes)
  metadataList := setMetadata existRegistration.metadataList registration.metadata
  providingApplication :=
    if registration.providingApplication ≠ "" then registration.providingApplication
    else existRegistration.providingApplication

def entityRegistration (entity : EntityId) (registration : ContextRegistration) :
    EntityRegistration where
  id := entity.id
  type := entity.type
  attributesList := setAttributes ∅ registration.contextRegistrationAttributes
  metadataList := setMetadata ∅ registration.metadata
  providingApplication := registration.providingApplication

def updateRegistrationInMemory (attrRank : String → Nat)
    (ctxRegistrationList : CtxRegistrationList) (entity : EntityId)
    (registration : ContextRegistration) : CtxRegistrationList :=
  match ctxRegistrationList.get entity.id with
  | some existRegistration =>
      ctxRegistrationList.set entity.id
        (updateExisting attrRank existRegistration entity registration)
  | none => ctxRegistrationList.set entity.id (entityRegistration entity registration)

def updateRegistration (attrRank : Nat → String → Nat) (ctxRegistrationList : CtxRegistrationList)
    (registReq : RegisterContextRequest) : CtxRegistrationList :=
  let calls := registReq.contextRegistrations.flatMap (fun registration =>
    registration.entityIdList.map (fun entity => (entity, registration)))
  calls.zipIdx.foldl (fun list call =>
    updateRegistrationInMemory (attrRank call.2) list call.1.1 call.1.2) ctxRegistrationList

-- the attribute table files every attribute under its own name
def Filed (list : GoMap ContextRegistrationAttribute) : Prop :=
  ∀ k a, list.get k = some a → a.name = k

theorem filed_empty : Filed ∅ := by simp [Filed]

theorem get_setAttributes (list : GoMap ContextRegistrationAttribute)
    (attrs : List ContextRegistrationAttribute) (n : String) :
    (setAttributes list attrs).get n =
      ((named ContextRegistrationAttribute.name n attrs).getLast?).or (list.get n) :=
  get_foldl_set ContextRegistrationAttribute.name list attrs

theorem get_setMetadata (list : GoMap ContextMetadata) (metas : List ContextMetadata)
    (n : String) :
    (setMetadata list metas).get n =
      ((named ContextMetadata.name n metas).getLast?).or (list.get n) :=
  get_foldl_set ContextMetadata.name list metas

theorem get_setAttributes_ne_none {list : GoMap ContextRegistrationAttribute}
    {attrs : List ContextRegistrationAttribute} {n : String} :
    (setAttributes list attrs).get n ≠ none ↔
      (∃ a ∈ attrs, a.name = n) ∨ list.get n ≠ none := by
  rw [get_setAttributes]
  cases h : (named ContextRegistrationAttribute.name n attrs).getLast? with
  | none =>
    rw [List.getLast?_eq_none_iff] at h
    have hno : ¬ ∃ a ∈ attrs, a.name = n := by
      rintro ⟨a, ha⟩
      have hmem := mem_named.mpr ha
      rw [h] at hmem
      cases hmem
    simp [hno]
  | some last =>
    have hex : ∃ a ∈ attrs, a.name = n := ⟨last, mem_named.mp (List.mem_of_getLast? h)⟩
    simp [hex]

theorem get_setAttributes_empty {attrs : List ContextRegistrationAttribute} {n : String} :
    (setAttributes ∅ attrs).get n ≠ none ↔ ∃ a ∈ attrs, a.name = n := by
  rw [get_setAttributes_ne_none]
  simp

theorem filed_setAttributes {list : GoMap ContextRegistrationAttribute} (h : Filed list)
    (attrs : List ContextRegistrationAttribute) : Filed (setAttributes list attrs) := by
  intro k a hk
  rw [get_setAttributes] at hk
  cases hlast : (named ContextRegistrationAttribute.name k attrs).getLast? with
  | none =>
    rw [hlast] at hk
    exact h k a hk
  | some last =>
    rw [hlast] at hk
    rw [← Option.some.inj hk]
    exact (mem_named.mp (List.mem_of_getLast? hlast)).2

theorem get_foldl_delete {es : List (GoMap.Entry ContextRegistrationAttribute)}
    {p : ContextRegistrationAttribute → Bool} {list : GoMap ContextRegistrationAttribute}
    {n : String} {a : ContextRegistrationAttribute} :
    (es.foldl (fun list e => if p e.2 then list else list.delete e.2.name) list).get n = some a ↔
      list.get n = some a ∧ ∀ e ∈ es, e.2.name = n → p e.2 = true := by
  induction es generalizing list with
  | nil => simp
  | cons e es ih =>
    rw [List.foldl_cons, ih, List.forall_mem_cons]
    by_cases hp : p e.2 = true
    · simp [hp]
    · rw [if_neg hp, GoMap.get_delete]
      by_cases hn : n = e.2.name
      · simp [hn, hp]
      · simp [hn, Ne.symm hn]

theorem get_deleteOldAttributes {attrRank : String → Nat}
    {attrilist list : GoMap ContextRegistrationAttribute} (hfiled : Filed list) {n : String}
    {a : ContextRegistrationAttribute} :
    (deleteOldAttributes attrRank attrilist list).get n = some a ↔
      list.get n = some a ∧ ∃ b ∈ attrilist.values, b.name = n := by
  unfold deleteOldAttributes
  rw [get_foldl_delete (p := fun old => attrilist.values.any (fun new => new.name == old.name))]
  refine and_congr_right (fun hget => ?_)
  have hname := hfiled n a hget
  constructor
  · intro h
    have := h ⟨n, a⟩ (GoMap.mem_range.mpr hget) hname
    simpa [hname] using this
  · rintro ⟨b, hb, hbn⟩ e - hen
    exact List.any_eq_true.mpr ⟨b, hb, by simp [hbn, hen]⟩

-- the attribute table holds the names of the last registration and no others
theorem names_updateExisting {attrRank : String → Nat} {r : EntityRegistration}
    {entity : EntityId} {registration : ContextRegistration} (hfiled : Filed r.attributesList)
    (n : String) :
    (updateExisting attrRank r entity registration).attributesList.get n ≠ none ↔
      ∃ a ∈ registration.contextRegistrationAttributes, a.name = n := by
  have hset := filed_setAttributes hfiled registration.contextRegistrationAttributes
  have hnew : (∃ b ∈ (setAttributes ∅ registration.contextRegistrationAttributes).values,
      b.name = n) ↔ ∃ a ∈ registration.contextRegistrationAttributes, a.name = n := by
    constructor
    · rintro ⟨b, hb, rfl⟩
      obtain ⟨k, hk⟩ := GoMap.mem_values.mp hb
      have hname := filed_setAttributes filed_empty _ k b hk
      rw [hname]
      exact get_setAttributes_empty.mp (by simp [hk])
    · intro h
      obtain ⟨b, hb⟩ := Option.ne_none_iff_exists'.mp (get_setAttributes_empty.mpr h)
      exact ⟨b, GoMap.mem_values.mpr ⟨n, hb⟩, filed_setAttributes filed_empty _ n b hb⟩
  simp only [Option.ne_none_iff_exists', updateExisting, get_deleteOldAttributes hset, hnew]
  constructor
  · rintro ⟨a, -, h⟩
    exact h
  · intro h
    obtain ⟨a, ha⟩ := Option.ne_none_iff_exists'.mp
      (get_setAttributes_ne_none.mpr (Or.inl h))
    exact ⟨a, ha, h⟩

theorem filed_updateExisting {attrRank : String → Nat} {r : EntityRegistration}
    {entity : EntityId} {registration : ContextRegistration} (hfiled : Filed r.attributesList) :
    Filed (updateExisting attrRank r entity registration).attributesList := by
  have hset := filed_setAttributes hfiled registration.contextRegistrationAttributes
  intro k a hk
  exact hset k a ((get_deleteOldAttributes hset).mp hk).1

theorem get_updateRegistrationInMemory (attrRank : String → Nat) (list : CtxRegistrationList)
    (entity : EntityId) (registration : ContextRegistration) (eid : String) :
    (updateRegistrationInMemory attrRank list entity registration).get eid =
      if eid = entity.id then
        some (((list.get entity.id).map (updateExisting attrRank · entity registration)).getD
          (entityRegistration entity registration))
      else list.get eid := by
  unfold updateRegistrationInMemory
  cases list.get entity.id <;> simp [GoMap.get_set]

end FogFlow.Discovery
