import FogFlow.Discovery.Storage
import FogFlow.Library.Recovery
import FogFlow.Ngsi.AttributeJson

namespace FogFlow.Discovery.RegistrationFile

open Ngsi Fields Execution PartialDecode PartialDecode.Decoded Storage Recovery

variable {α : Type} {rawMessage : String → Json} {mapstructure : MapDecode}

def attributeToJson (a : ContextRegistrationAttribute) : Json :=
  .object ([("name", .string a.name)] ++ omitString "type" a.type ++
    if a.isDomain then [("isDomain", .bool true)] else [])

-- the fields have no tags, and the keys of the maps are written in order
def registrationToJson (rawMessage : String → Json) (r : EntityRegistration) : Json :=
  .object [("ID", .string r.id), ("Type", .string r.type),
    ("AttributesList", .object (mapSnd attributeToJson (toFields r.attributesList))),
    ("MetadataList", .object (mapSnd (ContextMetadata.toJson rawMessage)
      (toFields r.metadataList))),
    ("ProvidingApplication", .string r.providingApplication)]

def marshalRegistrations (rawMessage : String → Json) (list : CtxRegistrationList) : Json :=
  .object (mapSnd (registrationToJson rawMessage) (toFields list))

-- an element whose own decoder fails is not stored
def mapMember (decode : Json → Decoded α) (m : GoMap α) (member : String × Json) :
    Decoded (GoMap α) :=
  if (decode member.2).stopped then stop m else (decode member.2).map (fun a => m.set member.1 a)

def decodeMap (decode : Json → Decoded α) (old : GoMap α) : Json → Decoded (GoMap α)
  | .object ms => members (mapMember decode) old ms
  | .null => done ∅
  | _ => mismatch old

def attributeMember (a : ContextRegistrationAttribute) (m : String × Json) :
    Decoded ContextRegistrationAttribute :=
  match foldName m.1 with
  | "NAME" => (ofOption a.name (decodeString a.name m.2)).map (fun s => { a with name := s })
  | "TYPE" => (ofOption a.type (decodeString a.type m.2)).map (fun s => { a with type := s })
  | "ISDOMAIN" => (ofOption a.isDomain (decodeBool a.isDomain m.2)).map
      (fun b => { a with isDomain := b })
  | _ => done a

def registrationMember (mapstructure : MapDecode) (r : EntityRegistration)
    (m : String × Json) : Decoded EntityRegistration :=
  match foldName m.1 with
  | "ID" => (ofOption r.id (decodeString r.id m.2)).map (fun s => { r with id := s })
  | "TYPE" => (ofOption r.type (decodeString r.type m.2)).map (fun s => { r with type := s })
  | "ATTRIBUTESLIST" => (decodeMap (decodeObject attributeMember ⟨"", "", false⟩)
      r.attributesList m.2).map (fun list => { r with attributesList := list })
  | "METADATALIST" => (decodeMap (decodeMetadata mapstructure) r.metadataList m.2).map
      (fun list => { r with metadataList := list })
  | "PROVIDINGAPPLICATION" =>
      (ofOption r.providingApplication (decodeString r.providingApplication m.2)).map
        (fun s => { r with providingApplication := s })
  | _ => done r

def decodeRegistration (mapstructure : MapDecode) : Json → Decoded EntityRegistration :=
  decodeObject (registrationMember mapstructure) ⟨"", "", ∅, ∅, ""⟩

-- a file that is missing or holds no JSON text leaves the map that Init has made
def readRegistrationsFromDisk (mapstructure : MapDecode) : Option Json → CtxRegistrationList
  | some content => (decodeMap (decodeRegistration mapstructure) ∅ content).value
  | none => ∅

inductive RepositoryChange where
  | stored (change : RegistrationChange)
  | providerLeft (rank : String → Nat) (providerURL : String)

def RepositoryChange.apply : RepositoryChange → CtxRegistrationList → CtxRegistrationList
  | .stored change, list => change.apply list
  | .providerLeft rank providerURL, list =>
      (list.range rank).foldl (fun list e =>
        if e.2.providingApplication != providerURL then list else list.delete e.1) list

-- the metadata of a registration come from the decoder of the request
def RepositoryChange.Received (mapstructure : MapDecode) : RepositoryChange → Prop
  | .stored (.updateEntity _ _ registration) => ∀ m ∈ registration.metadata,
      ∃ j, ContextMetadata.ofJson mapstructure j = some m
  | _ => True

def repository (rawMessage : String → Json) (mapstructure : MapDecode) :
    Program CtxRegistrationList RepositoryChange (Option Json) where
  apply := RepositoryChange.apply
  marshal list := some (marshalRegistrations rawMessage list)
  restore := readRegistrationsFromDisk mapstructure
  broken := none

section Decode

variable {decode : Json → Decoded α} {toJson : α → Json} {f : α → α}

theorem members_mapMember {fields : List (String × α)}
    (h : ∀ e ∈ fields, decode (toJson e.2) = done (f e.2)) (old : GoMap α) :
    members (mapMember decode) old (mapSnd toJson fields) =
      done ((mapSnd f fields).foldl (fun m e => m.set e.1 e.2) old) := by
  induction fields generalizing old with
  | nil => rfl
  | cons e fields ih =>
    have hmember : mapMember decode old (e.1, toJson e.2) = done (old.set e.1 (f e.2)) := by
      simp [mapMember, h e (by simp)]
    have hcons : mapSnd toJson (e :: fields) = (e.1, toJson e.2) :: mapSnd toJson fields := rfl
    rw [hcons, members_cons_of_done hmember, ih (fun e' he' => h e' (by simp [he']))]
    rfl

def copied (f : α → α) (m : GoMap α) : GoMap α := ofFields (mapSnd f (toFields m))

@[simp] theorem get_copied (m : GoMap α) (k : String) :
    (copied f m).get k = (m.get k).map f := by
  rw [copied, get_ofFields_mapSnd, get_ofFields_toFields]

theorem decodeMap_toFields {m : GoMap α}
    (h : ∀ k a, m.get k = some a → decode (toJson a) = done (f a)) :
    decodeMap decode ∅ (.object (mapSnd toJson (toFields m))) = done (copied f m) :=
  members_mapMember (fun e he => h e.1 e.2 (mem_toFields.mp he)) ∅

theorem decode_attributeToJson (a : ContextRegistrationAttribute) :
    decodeObject attributeMember ⟨"", "", false⟩ (attributeToJson a) = done a := by
  obtain ⟨name, type, isDomain⟩ := a
  have hname : foldName "name" = "NAME" := by decide
  have htype : foldName "type" = "TYPE" := by decide
  have hisDomain : foldName "isDomain" = "ISDOMAIN" := by decide
  have hnameMember (old : ContextRegistrationAttribute) (s : String) :
      attributeMember old ("name", .string s) = done { old with name := s } := by
    simp [attributeMember, hname, decodeString]
  have htypeMember (old : ContextRegistrationAttribute) (s : String) :
      attributeMember old ("type", .string s) = done { old with type := s } := by
    simp [attributeMember, htype, decodeString]
  have hdomainMember (old : ContextRegistrationAttribute) :
      attributeMember old ("isDomain", .bool true) = done { old with isDomain := true } := by
    simp [attributeMember, hisDomain, decodeBool]
  simp only [attributeToJson, omitString, decodeObject]
  split_ifs <;>
    simp_all [members_cons_of_done (hnameMember _ _), members_cons_of_done (htypeMember _ _),
      members_cons_of_done (hdomainMember _)]

def sentRegistration (rawMessage : String → Json) (mapstructure : MapDecode)
    (r : EntityRegistration) : EntityRegistration :=
  { r with
    attributesList := copied id r.attributesList
    metadataList := copied (.sent rawMessage mapstructure) r.metadataList }

theorem decodeRegistration_toJson {r : EntityRegistration}
    (h : ∀ k m, r.metadataList.get k = some m → m.Sendable rawMessage mapstructure) :
    decodeRegistration mapstructure (registrationToJson rawMessage r) =
      done (sentRegistration rawMessage mapstructure r) := by
  have hid : foldName "ID" = "ID" := by decide
  have htype : foldName "Type" = "TYPE" := by decide
  have hattributes : foldName "AttributesList" = "ATTRIBUTESLIST" := by decide
  have hmetadata : foldName "MetadataList" = "METADATALIST" := by decide
  have hprovider : foldName "ProvidingApplication" = "PROVIDINGAPPLICATION" := by decide
  have hattributesList : decodeMap (decodeObject attributeMember ⟨"", "", false⟩) ∅
      (.object (mapSnd attributeToJson (toFields r.attributesList))) =
        done (copied id r.attributesList) :=
    decodeMap_toFields (fun _ a _ => decode_attributeToJson a)
  have hmetadataList : decodeMap (decodeMetadata mapstructure) ∅
      (.object (mapSnd (ContextMetadata.toJson rawMessage) (toFields r.metadataList))) =
        done (copied (.sent rawMessage mapstructure) r.metadataList) :=
    decodeMap_toFields (fun k m hk => decodeMetadata_toJson (h k m hk))
  simp [decodeRegistration, decodeObject, registrationToJson, members, registrationMember, hid,
    htype, hattributes, hmetadata, hprovider, decodeString, hattributesList, hmetadataList,
    sentRegistration, done, Decoded.map]

end Decode

section Received

theorem decodeInternal_induction {P : ContextMetadata → Prop} (hzero : P .zero)
    (hmember : ∀ m member m', P m → decodeMember m member = some m' → P m') {j : Json}
    {m : ContextMetadata} (h : decodeInternal j = some m) : P m := by
  cases j with
  | object ms =>
    rw [decodeInternal] at h
    generalize ContextMetadata.zero = init at h hzero
    induction ms generalizing init with
    | nil => rwa [← Option.some.inj h]
    | cons member ms ih =>
      obtain ⟨next, hnext, hrest⟩ := Option.bind_eq_some_iff.mp h
      exact ih next hrest (hmember init member next hzero hnext)
  | null => rwa [← Option.some.inj h]
  | _ => cases h

theorem isJson_cordinates {j : Json} {m : ContextMetadata} (h : decodeInternal j = some m) :
    IsJson m.cordinates := by
  refine decodeInternal_induction (P := fun m => IsJson m.cordinates) ⟨.null, rfl⟩ ?_ h
  intro m member m' hm hnext
  unfold decodeMember at hnext
  split at hnext
  · obtain ⟨s, -, rfl⟩ := Option.map_eq_some_iff.mp hnext
    exact hm
  · obtain ⟨s, -, rfl⟩ := Option.map_eq_some_iff.mp hnext
    exact hm
  · rwa [← Option.some.inj hnext]
  · rw [← Option.some.inj hnext]
    exact ⟨_, rfl⟩
  · rwa [← Option.some.inj hnext]

def Arrived (m : ContextMetadata) : Prop := m.Matching ∧ IsJson m.cordinates

-- the decoder gives every value the Go type that goes with its type
theorem arrived_of_ofJson {j : Json} {m : ContextMetadata}
    (h : ContextMetadata.ofJson mapstructure j = some m) : Arrived m := by
  obtain ⟨internal, hinternal, hm⟩ := Option.bind_eq_some_iff.mp h
  have hvalue := decodeInternal_isJson hinternal
  have hcordinates := isJson_cordinates hinternal
  unfold ContextMetadata.unmarshalJSON at hm
  split at hm
  · obtain ⟨c, -, rfl⟩ := Option.map_eq_some_iff.mp hm
    exact ⟨by simp [ContextMetadata.Matching, *], hcordinates⟩
  · obtain ⟨p, -, rfl⟩ := Option.map_eq_some_iff.mp hm
    exact ⟨by simp [ContextMetadata.Matching, *], hcordinates⟩
  · obtain ⟨p, -, rfl⟩ := Option.map_eq_some_iff.mp hm
    exact ⟨by simp [ContextMetadata.Matching, *], hcordinates⟩
  · obtain rfl := Option.some.inj hm
    exact ⟨by simp [ContextMetadata.Matching, *], hcordinates⟩

def settledMetadata (m : ContextMetadata) : ContextMetadata := { m with value := settled m.value }

theorem sent_of_arrived (hms : MatchesFieldNames mapstructure) {m : ContextMetadata}
    (h : Arrived m) : m.sent rawMessage mapstructure = settledMetadata m := by
  rw [sent_eq hms h.1, h.2.received_eq]
  rfl

theorem arrived_settledMetadata {m : ContextMetadata} (h : Arrived m) :
    Arrived (settledMetadata m) :=
  ⟨matching_settled h.1 m.cordinates, h.2⟩

@[simp] theorem settledMetadata_idem (m : ContextMetadata) :
    settledMetadata (settledMetadata m) = settledMetadata m := by
  simp [settledMetadata]

end Received

section Recovered

-- a registration as far as the file can hold it: of a circle only the radius
structure Listed where
  id : String
  type : String
  attributes : String → Option ContextRegistrationAttribute
  metadata : String → Option ContextMetadata
  providingApplication : String

def listed (r : EntityRegistration) : Listed where
  id := r.id
  type := r.type
  attributes := r.attributesList.get
  metadata k := (r.metadataList.get k).map settledMetadata
  providingApplication := r.providingApplication

def Alike (list list' : CtxRegistrationList) : Prop :=
  ∀ eid, (list.get eid).map listed = (list'.get eid).map listed

def outcome (log : List RepositoryChange) : CtxRegistrationList :=
  log.foldl (fun list change => change.apply list) ∅

structure Stored (r : EntityRegistration) : Prop where
  filed : Filed r.attributesList
  arrived : ∀ k m, r.metadataList.get k = some m → Arrived m

def AllStored (list : CtxRegistrationList) : Prop := ∀ eid r, list.get eid = some r → Stored r

theorem arrived_setMetadata {list : GoMap ContextMetadata} {metas : List ContextMetadata}
    (hlist : ∀ k m, list.get k = some m → Arrived m) (hmetas : ∀ m ∈ metas, Arrived m) :
    ∀ k m, (setMetadata list metas).get k = some m → Arrived m := by
  intro k m hk
  rw [get_setMetadata, Option.or_eq_some_iff] at hk
  rcases hk with hlast | ⟨-, hold⟩
  · exact hmetas m (Named.mem_named.mp (List.mem_of_getLast? hlast)).1
  · exact hlist k m hold

variable {attrRank : String → Nat} {r r' : EntityRegistration} {entity : EntityId}
  {registration : ContextRegistration} {list list' : CtxRegistrationList}

theorem get_updateEntity (eid : String) :
    ((RepositoryChange.stored (.updateEntity attrRank entity registration)).apply list).get eid =
      if eid = entity.id then
        some (((list.get entity.id).map (updateExisting attrRank · entity registration)).getD
          (entityRegistration entity registration))
      else list.get eid :=
  get_updateRegistrationInMemory attrRank list entity registration eid

theorem get_deleteEntity (eid eid' : String) :
    ((RepositoryChange.stored (.deleteEntity eid')).apply list).get eid =
      if eid = eid' then none else list.get eid :=
  GoMap.get_delete list eid' eid

theorem get_providerLeft (rank : String → Nat) (providerURL eid : String) :
    ((RepositoryChange.providerLeft rank providerURL).apply list).get eid =
      (list.get eid).filter (fun r => r.providingApplication != providerURL) :=
  GoMap.get_sweep (p := fun r : EntityRegistration => r.providingApplication != providerURL)
    rank list eid

theorem stored_updateExisting (h : Stored r) (hmetas : ∀ m ∈ registration.metadata, Arrived m) :
    Stored (updateExisting attrRank r entity registration) :=
  ⟨filed_updateExisting h.filed, arrived_setMetadata h.arrived hmetas⟩

theorem stored_entityRegistration (hmetas : ∀ m ∈ registration.metadata, Arrived m) :
    Stored (entityRegistration entity registration) :=
  ⟨filed_setAttributes filed_empty _, arrived_setMetadata (by simp) hmetas⟩

theorem allStored_apply {change : RepositoryChange} (h : AllStored list)
    (hchange : change.Received mapstructure) : AllStored (change.apply list) := by
  intro eid r hr
  cases change with
  | stored change =>
    cases change with
    | updateEntity attrRank entity registration =>
      have hmetas : ∀ m ∈ registration.metadata, Arrived m := fun m hm =>
        (hchange m hm).elim (fun _ hj => arrived_of_ofJson hj)
      rw [get_updateEntity] at hr
      split_ifs at hr
      · obtain rfl := Option.some.inj hr
        cases hold : list.get entity.id with
        | none => exact stored_entityRegistration hmetas
        | some old => exact stored_updateExisting (h _ old hold) hmetas
      · exact h eid r hr
    | deleteEntity eid' => exact h eid r (GoMap.get_of_get_delete hr).2
  | providerLeft rank providerURL =>
    rw [get_providerLeft] at hr
    exact h eid r (Option.filter_eq_some_iff.mp hr).1

theorem listed_eq_iff : listed r = listed r' ↔
    r.id = r'.id ∧ r.type = r'.type ∧ (∀ k, r.attributesList.get k = r'.attributesList.get k) ∧
      (∀ k, (r.metadataList.get k).map settledMetadata =
        (r'.metadataList.get k).map settledMetadata) ∧
      r.providingApplication = r'.providingApplication := by
  simp [listed, funext_iff]

theorem listed_updateExisting (h : Stored r) (h' : Stored r') (hlisted : listed r = listed r') :
    listed (updateExisting attrRank r entity registration) =
      listed (updateExisting attrRank r' entity registration) := by
  obtain ⟨hid, htype, hattributes, hmetadata, hprovider⟩ := listed_eq_iff.mp hlisted
  refine listed_eq_iff.mpr ⟨hid, by simp [updateExisting, htype], fun k => ?_, fun k => ?_,
    by simp [updateExisting, hprovider]⟩
  · apply Option.ext
    intro a
    simp only [updateExisting]
    rw [get_deleteOldAttributes (filed_setAttributes h.filed _),
      get_deleteOldAttributes (filed_setAttributes h'.filed _), get_setAttributes,
      get_setAttributes, hattributes]
  · simp only [updateExisting]
    rw [get_setMetadata, get_setMetadata, Option.map_or, Option.map_or, hmetadata]

theorem alike_apply (change : RepositoryChange) (h : AllStored list) (h' : AllStored list')
    (halike : Alike list list') : Alike (change.apply list) (change.apply list') := by
  intro eid
  cases change with
  | stored change =>
    cases change with
    | updateEntity attrRank entity registration =>
      rw [get_updateEntity, get_updateEntity]
      split_ifs
      · have hold := halike entity.id
        cases hr : list.get entity.id with
        | none =>
          cases hr' : list'.get entity.id with
          | none => rfl
          | some r' => simp [hr, hr'] at hold
        | some r =>
          cases hr' : list'.get entity.id with
          | none => simp [hr, hr'] at hold
          | some r' =>
            have hlisted : listed r = listed r' := by simpa [hr, hr'] using hold
            exact congrArg some (listed_updateExisting (h _ r hr) (h' _ r' hr') hlisted)
      · exact halike eid
    | deleteEntity eid' =>
      rw [get_deleteEntity, get_deleteEntity]
      split_ifs
      · rfl
      · exact halike eid
  | providerLeft rank providerURL =>
    rw [get_providerLeft, get_providerLeft]
    have hfilter (o : Option EntityRegistration) :
        (o.filter (fun r => r.providingApplication != providerURL)).map listed =
          (o.map listed).filter (fun r => r.providingApplication != providerURL) := by
      rw [Option.filter_map]
      rfl
    rw [hfilter, hfilter, halike]

end Recovered

section Disk

variable {list : CtxRegistrationList} {log : List RepositoryChange}

theorem get_restored (hms : MatchesFieldNames mapstructure) (h : AllStored list) (eid : String) :
    (readRegistrationsFromDisk mapstructure (some (marshalRegistrations rawMessage list))).get eid =
      (list.get eid).map (sentRegistration rawMessage mapstructure) := by
  have hdecode : ∀ k r, list.get k = some r →
      decodeRegistration mapstructure (registrationToJson rawMessage r) =
        done (sentRegistration rawMessage mapstructure r) := fun k r hk =>
    decodeRegistration_toJson (fun k' m hm => sendable_of_matching hms ((h k r hk).arrived k' m hm).1)
  rw [readRegistrationsFromDisk, marshalRegistrations, decodeMap_toFields hdecode, value_done,
    get_copied]

theorem listed_sentRegistration (hms : MatchesFieldNames mapstructure) {r : EntityRegistration}
    (h : Stored r) : listed (sentRegistration rawMessage mapstructure r) = listed r := by
  refine listed_eq_iff.mpr ⟨rfl, rfl, by simp [sentRegistration], fun k => ?_, rfl⟩
  simp only [sentRegistration, get_copied]
  cases hk : r.metadataList.get k with
  | none => rfl
  | some m => simp [sent_of_arrived hms (h.arrived k m hk)]

theorem stored_sentRegistration (hms : MatchesFieldNames mapstructure) {r : EntityRegistration}
    (h : Stored r) : Stored (sentRegistration rawMessage mapstructure r) := by
  refine ⟨fun k a hk => h.filed k a (by simpa [sentRegistration] using hk), fun k m hk => ?_⟩
  simp only [sentRegistration, get_copied] at hk
  obtain ⟨old, hold, rfl⟩ := Option.map_eq_some_iff.mp hk
  rw [sent_of_arrived hms (h.arrived k old hold)]
  exact arrived_settledMetadata (h.arrived k old hold)

def Represented (list : CtxRegistrationList) (log : List RepositoryChange) : Prop :=
  AllStored list ∧ AllStored (outcome log) ∧ Alike list (outcome log)

theorem represents (hms : MatchesFieldNames mapstructure) :
    Represents (repository rawMessage mapstructure) (RepositoryChange.Received mapstructure)
      Represented := by
  constructor
  · have hnone : AllStored ∅ := fun eid r hr => by simp at hr
    exact ⟨hnone, hnone, fun _ => rfl⟩
  · rintro change list log hchange ⟨hlist, hlog, halike⟩
    have houtcome : outcome (log ++ [change]) = change.apply (outcome log) := by simp [outcome]
    refine ⟨allStored_apply hlist hchange, ?_, ?_⟩
    · rw [houtcome]
      exact allStored_apply hlog hchange
    · rw [houtcome]
      exact alike_apply change hlist hlog halike
  · rintro list log ⟨hlist, hlog, halike⟩
    have hget (eid : String) :
        (readRegistrationsFromDisk mapstructure
          (some (marshalRegistrations rawMessage list))).get eid =
            (list.get eid).map (sentRegistration rawMessage mapstructure) :=
      get_restored hms hlist eid
    refine ⟨fun eid r hr => ?_, hlog, fun eid => ?_⟩
    · obtain ⟨old, hold, rfl⟩ := Option.map_eq_some_iff.mp ((hget eid).symm.trans hr)
      exact stored_sentRegistration hms (hlist eid old hold)
    · refine Eq.trans ?_ (halike eid)
      refine (congrArg (Option.map listed) (hget eid)).trans ?_
      cases hk : list.get eid with
      | none => rfl
      | some r => exact congrArg some (listed_sentRegistration hms (hlist eid r hk))

end Disk

variable {labels before after : List (Recovery.Label RepositoryChange)}
  {s t : ScheduledWrite.Disk CtxRegistrationList (Option Json)}

def parked : ContextMetadata := ⟨"location", "point", .point ⟨49, 8⟩, .null⟩

def parkedCar : RepositoryChange :=
  .stored (.updateEntity (fun _ => 0) ⟨"Car", false, "car1"⟩
    ⟨[⟨"Car", false, "car1"⟩], [⟨"speed", "integer", false⟩], [parked], "broker"⟩)

theorem parkedCar_received : parkedCar.Received byFieldNames := by
  intro m hm
  obtain rfl : m = parked := by simpa using hm
  have hmatching : parked.Matching := ⟨⟨49, 8⟩, rfl⟩
  exact ⟨parked.toJson .string,
    ofJson_toJson_of_matching matchesFieldNames_byFieldNames hmatching⟩

def written : List (Recovery.Label RepositoryChange) :=
  .work (.change parkedCar) :: List.replicate 10 (.work (.run 0))

-- the deletion is in memory only when the process exits
def lostDeletion : List (Recovery.Label RepositoryChange) :=
  [.work (.change (.stored (.deleteEntity "car1"))), .work (.run 0), .restart false]

end FogFlow.Discovery.RegistrationFile
