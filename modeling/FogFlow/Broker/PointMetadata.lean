import FogFlow.Broker.NgsiLdPayload
import FogFlow.Broker.Store
import FogFlow.Library.Execution
import FogFlow.Ngsi.MetadataJson
import FogFlow.Ngsi.ReadNgsiV2

namespace FogFlow.Broker

open Ngsi Fields Loop Named Execution

namespace PointMetadata

structure AttributeV1 where
  name : String
  type : String
  value : Json
  metadata : List Json

structure ElementV1 where
  entity : EntityId
  type : String
  attributes : List AttributeV1
  metadata : List Json

def AttributeV1.decode (mapstructure : MapDecode) (attr : AttributeV1) :
    Option ContextAttribute :=
  (attr.metadata.mapM (ContextMetadata.ofJson mapstructure)).map
    (fun metadata => ⟨attr.name, attr.type, unmarshal attr.value, metadata⟩)

def ElementV1.decode (mapstructure : MapDecode) (elem : ElementV1) : Option ContextElement :=
  (elem.attributes.mapM (AttributeV1.decode mapstructure)).bind (fun attributes =>
    (elem.metadata.mapM (ContextMetadata.ofJson mapstructure)).map (fun metadata =>
      ⟨elem.entity, elem.type, attributes, metadata⟩))

-- an update by the interface it comes from, with the orders of the loops over its maps
inductive Update where
  | ngsiv1 (elem : ElementV1)
  | ngsiv2 (orders : OrdersV2) (entity : Json)
  | ngsild (orders : Orders) (entity : Json)

def accepted : Except Fault (Bool × ContextElement) → Option ContextElement
  | .ok (true, ce) => some ce
  | _ => none

def Update.read (mapstructure : MapDecode) : Update → Option ContextElement
  | .ngsiv1 elem => elem.decode mapstructure
  | .ngsiv2 orders entity => (unmarshalMap entity).bind (fun ngsiv2Entity =>
      accepted (ContextElement.zero.readFromNGSIv2 orders ngsiv2Entity))
  | .ngsild orders entity => (unmarshalMap entity).bind (fun ngsildEntity =>
      accepted (ContextElement.zero.readFromNGSILD orders ngsildEntity))

def step (mapstructure : MapDecode) (entities : Entities) (u : Update) : Option Entities :=
  (u.read mapstructure).map (updateContextElement entities)

def isPoint : Value → Bool
  | .point _ => true
  | _ => false

def Typed (metadata : ContextMetadata) : Prop :=
  metadata.type = "point" → isPoint metadata.value = true

def PointsTyped (entities : Entities) : Prop :=
  ∀ eid e, entities.get eid = some e → ∀ metadata ∈ e.metadata, Typed metadata

-- what an update says about a domain metadata: its name and type, and whether it is a point
structure Announced where
  name : String
  type : String
  point : Bool
deriving DecidableEq

def textOf : Value → String
  | .string s => s
  | _ => ""

def textAt (m : GoMap Value) (k : String) : String := textOf (valueAt m k)

def mapAt (m : GoMap Value) (k : String) : GoMap Value :=
  match valueAt m k with
  | .object fields => ofFields fields
  | _ => ∅

def announceV1 (j : Json) : List Announced :=
  match decodeInternal j with
  | some m => [⟨m.name, m.type, toLower m.type == "point"⟩]
  | none => []

def announceV2 (entry : GoMap.Entry Value) : List Announced :=
  match entry.2 with
  | .object fields =>
      if toLower entry.1 = "location" then [⟨entry.1, textAt (ofFields fields) "type", false⟩]
      else []
  | _ => []

def announceLD (entry : GoMap.Entry Value) : List Announced :=
  match entry.2 with
  | .object fields =>
      if toLower entry.1 = "location" then
        if toLower (textAt (ofFields fields) "type") = "geoproperty" then
          if toLower (textAt (mapAt (ofFields fields) "value") "type") = "point" then
            [⟨entry.1, "point", true⟩]
          else [⟨entry.1, "", false⟩]
        else [⟨entry.1, textAt (ofFields fields) "type", false⟩]
      else []
  | _ => []

def entriesIn (rank : String → Nat) (entity : Json) : List (GoMap.Entry Value) :=
  ((unmarshalMap entity).getD ∅).range rank

def targetIn (entries : List (GoMap.Entry Value)) : String :=
  entries.foldl (fun id entry => if toLower entry.1 = "id" then textOf entry.2 else id) ""

def Update.target : Update → String
  | .ngsiv1 elem => elem.entity.id
  | .ngsiv2 orders entity => targetIn (entriesIn orders.entity entity)
  | .ngsild orders entity => targetIn (entriesIn orders.entity entity)

def Update.announced : Update → List Announced
  | .ngsiv1 elem => elem.metadata.flatMap announceV1
  | .ngsiv2 orders entity => (entriesIn orders.entity entity).flatMap announceV2
  | .ngsild orders entity => (entriesIn orders.entity entity).flatMap announceLD

-- the first entry of a name keeps its type, the last one announced gives the value
structure Fits (entities : Entities) (u : Update) : Prop where
  fresh : entities.get u.target = none → ∀ a ∈ u.announced, a.type = "point" → a.point = true
  merged : ∀ cur, entities.get u.target = some cur → ∀ n last,
    (named Announced.name n u.announced).getLast? = some last →
    ((entriesOf n cur.metadata).map ContextMetadata.type ++
      (named Announced.name n u.announced).map Announced.type).head? = some "point" →
    last.point = true

def announcedOf (metadata : ContextMetadata) : Announced :=
  ⟨metadata.name, metadata.type, isPoint metadata.value⟩

variable {mapstructure : MapDecode} {entities : Entities} {u : Update} {e : ContextElement}

theorem isPoint_of_isJson {v : Value} (h : IsJson v) : isPoint v = false := by
  obtain ⟨j, rfl⟩ := h
  cases j <;> rfl

theorem announceV1_of_ofJson {j : Json} {m : ContextMetadata}
    (h : ContextMetadata.ofJson mapstructure j = some m) : announceV1 j = [announcedOf m] := by
  obtain ⟨raw, hraw, hm⟩ := Option.bind_eq_some_iff.mp h
  have hjson := decodeInternal_isJson hraw
  unfold ContextMetadata.unmarshalJSON at hm
  split at hm
  · obtain ⟨temp, -, rfl⟩ := Option.map_eq_some_iff.mp hm
    simp [announceV1, announcedOf, isPoint, *]
  · obtain ⟨temp, -, rfl⟩ := Option.map_eq_some_iff.mp hm
    simp [announceV1, announcedOf, isPoint, *]
  · obtain ⟨temp, -, rfl⟩ := Option.map_eq_some_iff.mp hm
    simp [announceV1, announcedOf, isPoint, *]
  next _ hpoint _ =>
    obtain rfl := Option.some.inj hm
    have hbeq : (toLower raw.type == "point") = false := beq_eq_false_iff_ne.mpr hpoint
    simp only [announceV1, announcedOf, isPoint_of_isJson hjson, hraw, hbeq]

theorem announced_of_mapM {js : List Json} {ms : List ContextMetadata}
    (h : js.mapM (ContextMetadata.ofJson mapstructure) = some ms) :
    ms.map announcedOf = js.flatMap announceV1 := by
  induction js generalizing ms with
  | nil =>
    obtain rfl : [] = ms := Option.some.inj h
    rfl
  | cons j js ih =>
    rw [List.mapM_cons] at h
    obtain ⟨m, hm, hrest⟩ := Option.bind_eq_some_iff.mp h
    obtain ⟨rest, hms, heq⟩ := Option.bind_eq_some_iff.mp hrest
    obtain rfl : m :: rest = ms := Option.some.inj heq
    rw [List.flatMap_cons, announceV1_of_ofJson hm, List.map_cons, ih hms]
    rfl

-- what one entry of a map does to the element that is being read
structure ReadsEntry (announce : GoMap.Entry Value → List Announced) (entry : GoMap.Entry Value)
    (ce ce' : ContextElement) : Prop where
  metadata : ce'.metadata.map announcedOf = ce.metadata.map announcedOf ++ announce entry
  id : ce'.entity.id = if toLower entry.1 = "id" then textOf entry.2 else ce.entity.id

theorem asString_eq_ok {v : Value} {s : String} : asString v = .ok s ↔ v = .string s := by
  cases v <;> simp [asString]

theorem textAt_of_asString {m : GoMap Value} {k s : String} (h : asString (valueAt m k) = .ok s) :
    textAt m k = s := by
  rw [textAt, asString_eq_ok.mp h, textOf]

theorem mapAt_of_asMap {m m' : GoMap Value} {k : String} (h : asMap (valueAt m k) = .ok m') :
    mapAt m k = m' := by
  unfold mapAt
  revert h
  cases valueAt m k with
  | object fields => exact fun h => Except.ok.inj h
  | _ =>
    intro h
    cases h

theorem announceV2_of_not_object {k : String} {v : Value} (h : ∀ fields, v ≠ .object fields) :
    announceV2 ⟨k, v⟩ = [] := by
  unfold announceV2
  split
  · exact absurd ‹_› (h _)
  · rfl

theorem readEntryV2_reads {orders : OrdersV2} {ce ce' : ContextElement}
    {entry : GoMap.Entry Value} (h : readEntryV2 orders ce entry = .ok ce')
    (hjson : IsJson entry.2) : ReadsEntry announceV2 entry ce ce' := by
  obtain ⟨k, v⟩ := entry
  unfold readEntryV2 at h
  dsimp only at h hjson
  split at h
  next hid =>
    obtain ⟨id, hv, hce⟩ := bind_eq_ok.mp h
    obtain rfl := asString_eq_ok.mp hv
    rw [← Except.ok.inj hce]
    exact ⟨by simp [announceV2], by simp [hid, textOf]⟩
  next htype =>
    obtain ⟨type, hv, hce⟩ := bind_eq_ok.mp h
    obtain rfl := asString_eq_ok.mp hv
    rw [← Except.ok.inj hce]
    exact ⟨by simp [announceV2], by simp [htype]⟩
  next hid htype =>
    split at h
    next => cases h
    next fields =>
      obtain ⟨attr, hattr, hce⟩ := bind_eq_ok.mp h
      obtain ⟨attrType, hattrType, hrest⟩ := bind_eq_ok.mp hattr
      obtain ⟨metadata, -, hnew⟩ := bind_eq_ok.mp hrest
      rw [← Except.ok.inj hce, ← Except.ok.inj hnew]
      refine ⟨?_, (if_neg hid).symm⟩
      have hvalue := isPoint_of_isJson (isJson_valueAt hjson "value")
      simp only [announceV2, List.map_append, textAt_of_asString hattrType]
      split_ifs with hlocation
      · rw [List.map_singleton, announcedOf, hvalue]
      · rfl
    next hnull hobject =>
      rw [← Except.ok.inj h]
      refine ⟨?_, (if_neg hid).symm⟩
      rw [announceV2_of_not_object hobject, List.append_nil]

theorem readItem_frame {orders : Orders} {k : String} {ce ce' : ContextElement}
    {item : Value × Nat} (h : readItem orders k ce item = .ok ce') :
    ce'.metadata = ce.metadata ∧ ce'.entity = ce.entity := by
  unfold readItem at h
  split at h
  · obtain ⟨attr, -, hce⟩ := bind_eq_ok.mp h
    rw [← Except.ok.inj hce, ContextElement.addAttribute]
    split_ifs <;> exact ⟨rfl, rfl⟩
  · rw [← Except.ok.inj h]
    exact ⟨rfl, rfl⟩

theorem readItems_frame {orders : Orders} {k : String} {ce ce' : ContextElement}
    {items : List (Value × Nat)} (h : items.foldlM (readItem orders k) ce = .ok ce') :
    ce'.metadata = ce.metadata ∧ ce'.entity = ce.entity :=
  foldlM_invariant (I := fun _ acc => acc.metadata = ce.metadata ∧ acc.entity = ce.entity) h
    ⟨rfl, rfl⟩ (fun _ _ _ _ _ _ hacc hnext =>
      ⟨(readItem_frame hnext).1.trans hacc.1, (readItem_frame hnext).2.trans hacc.2⟩)

theorem announceLD_of_not_location {k : String} {v : Value} (h : toLower k ≠ "location") :
    announceLD ⟨k, v⟩ = [] := by
  unfold announceLD
  split
  · exact if_neg h
  · rfl

theorem readGeoJSON_announced {k : String} {geojson : GoMap Value} {metadata : ContextMetadata}
    (h : ContextMetadata.readGeoJSON ⟨k, "", .null, .null⟩ geojson = .ok metadata) :
    announcedOf metadata =
      if toLower (textAt geojson "type") = "point" then ⟨k, "point", true⟩ else ⟨k, "", false⟩ := by
  obtain ⟨locationType, htype, h⟩ := bind_eq_ok.mp h
  rw [textAt_of_asString htype]
  split_ifs at h ⊢ with hpoint
  · obtain ⟨coordinates, -, h⟩ := bind_eq_ok.mp h
    obtain ⟨first, -, h⟩ := bind_eq_ok.mp h
    obtain ⟨longitude, -, h⟩ := bind_eq_ok.mp h
    obtain ⟨second, -, h⟩ := bind_eq_ok.mp h
    obtain ⟨latitude, -, h⟩ := bind_eq_ok.mp h
    rw [← Except.ok.inj h]
    rfl
  · rw [← Except.ok.inj h]
    rfl

theorem readLocation_announced {k : String} {fields : List (String × Value)}
    {metadata : ContextMetadata} (hjson : IsJson (.object fields))
    (hlocation : toLower k = "location") (h : readLocation k (ofFields fields) = .ok metadata) :
    announceLD ⟨k, .object fields⟩ = [announcedOf metadata] := by
  obtain ⟨attrType, htype, h⟩ := bind_eq_ok.mp h
  simp only [announceLD, hlocation, if_true, textAt_of_asString htype]
  dsimp only at h
  by_cases hgeo : toLower attrType = "geoproperty"
  · rw [if_pos hgeo] at h ⊢
    obtain ⟨geojson, hmap, h⟩ := bind_eq_ok.mp h
    rw [readGeoJSON_announced h, mapAt_of_asMap hmap]
    split_ifs <;> rfl
  · rw [if_neg hgeo] at h ⊢
    rw [← Except.ok.inj h, announcedOf, isPoint_of_isJson (isJson_valueAt hjson "value")]

theorem announceLD_of_not_object {k : String} {v : Value} (h : ∀ fields, v ≠ .object fields) :
    announceLD ⟨k, v⟩ = [] := by
  unfold announceLD
  split
  · exact absurd ‹_› (h _)
  · rfl

theorem readEntry_reads {orders : Orders} {ce ce' : ContextElement}
    {entry : GoMap.Entry Value} (h : readEntry orders ce entry = .ok ce')
    (hjson : IsJson entry.2) : ReadsEntry announceLD entry ce ce' := by
  obtain ⟨k, v⟩ := entry
  unfold readEntry at h
  dsimp only at h hjson
  split at h
  next hid =>
    obtain ⟨id, hv, hce⟩ := bind_eq_ok.mp h
    obtain rfl := asString_eq_ok.mp hv
    rw [← Except.ok.inj hce]
    exact ⟨by simp [announceLD], by simp [hid, textOf]⟩
  next htype =>
    obtain ⟨type, hv, hce⟩ := bind_eq_ok.mp h
    obtain rfl := asString_eq_ok.mp hv
    rw [← Except.ok.inj hce]
    exact ⟨by simp [announceLD], by simp [htype]⟩
  next hcontext =>
    rw [← Except.ok.inj h]
    exact ⟨by simp [announceLD_of_not_location, hcontext], by simp [hcontext]⟩
  next hid htype hcontext =>
    split at h
    next fields =>
      obtain ⟨ce₁, hitem, h⟩ := bind_eq_ok.mp h
      obtain ⟨hmetadata, hentity⟩ := readItem_frame hitem
      split_ifs at h with hlocation
      · obtain ⟨metadata, hread, hce⟩ := bind_eq_ok.mp h
        rw [← Except.ok.inj hce]
        refine ⟨?_, (congrArg EntityId.id hentity).trans (if_neg hid).symm⟩
        rw [readLocation_announced hjson hlocation hread, hmetadata]
        simp
      · obtain ⟨_, -, hce⟩ := bind_eq_ok.mp h
        rw [← Except.ok.inj hce]
        refine ⟨?_, (congrArg EntityId.id hentity).trans (if_neg hid).symm⟩
        rw [announceLD_of_not_location hlocation, hmetadata, List.append_nil]
    next items =>
      obtain ⟨hmetadata, hentity⟩ := readItems_frame h
      refine ⟨?_, (congrArg EntityId.id hentity).trans (if_neg hid).symm⟩
      rw [hmetadata]
      simp [announceLD]
    next hobject _ =>
      rw [← Except.ok.inj h]
      refine ⟨?_, (if_neg hid).symm⟩
      rw [announceLD_of_not_object hobject, List.append_nil]

theorem reads_loop {f : ContextElement → GoMap.Entry Value → Except Fault ContextElement}
    {announce : GoMap.Entry Value → List Announced} {ce' : ContextElement}
    {entries : List (GoMap.Entry Value)}
    (hstep : ∀ ce ce' entry, f ce entry = .ok ce' → IsJson entry.2 →
      ReadsEntry announce entry ce ce')
    (hjson : ∀ entry ∈ entries, IsJson entry.2)
    (h : entries.foldlM f ContextElement.zero = .ok ce') :
    ce'.entity.id = targetIn entries ∧
      ce'.metadata.map announcedOf = entries.flatMap announce := by
  refine foldlM_invariant (I := fun done acc => acc.entity.id = targetIn done ∧
    acc.metadata.map announcedOf = done.flatMap announce) h ⟨rfl, rfl⟩ ?_
  intro done entry rest acc next hentries hacc hnext
  have hreads := hstep acc next entry hnext (hjson entry (by simp [hentries]))
  constructor
  · rw [hreads.id, hacc.1, targetIn, targetIn, List.foldl_append]
    rfl
  · rw [hreads.metadata, hacc.2, List.flatMap_append, List.flatMap_singleton]

theorem isJson_entriesIn (rank : String → Nat) {entity : Json} {m : GoMap Value}
    (hm : unmarshalMap entity = some m) :
    entriesIn rank entity = m.range rank ∧ ∀ entry ∈ m.range rank, IsJson entry.2 := by
  refine ⟨by rw [entriesIn, hm]; rfl, fun entry hentry => ?_⟩
  cases entity with
  | object members =>
    obtain rfl := Option.some.inj hm
    exact isJson_get_unmarshalMembers (GoMap.mem_range.mp hentry)
  | _ => cases hm

theorem accepted_eq_some {r : Except Fault (Bool × ContextElement)} :
    accepted r = some e ↔ r = .ok (true, e) := by
  match r with
  | .ok (true, ce) => simp [accepted]
  | .ok (false, ce) => simp [accepted]
  | .error _ => simp [accepted]

theorem read_spec (h : u.read mapstructure = some e) :
    e.entity.id = u.target ∧ e.metadata.map announcedOf = u.announced := by
  cases u with
  | ngsiv1 elem =>
    obtain ⟨attributes, -, h⟩ := Option.bind_eq_some_iff.mp h
    obtain ⟨metadata, hmetadata, rfl⟩ := Option.map_eq_some_iff.mp h
    exact ⟨rfl, announced_of_mapM hmetadata⟩
  | ngsiv2 orders entity =>
    obtain ⟨m, hm, h⟩ := Option.bind_eq_some_iff.mp h
    obtain ⟨hentries, hjson⟩ := isJson_entriesIn orders.entity hm
    rw [Update.target, Update.announced, hentries]
    have hread := accepted_eq_some.mp h
    unfold ContextElement.readFromNGSIv2 at hread
    dsimp only at hread
    split_ifs at hread with hexist
    · simp at hread
    · obtain ⟨ce, hloop, hce⟩ := bind_eq_ok.mp hread
      obtain rfl : ce = e := by simpa using hce
      exact reads_loop (fun ce ce' entry => readEntryV2_reads) hjson hloop
  | ngsild orders entity =>
    obtain ⟨m, hm, h⟩ := Option.bind_eq_some_iff.mp h
    obtain ⟨hentries, hjson⟩ := isJson_entriesIn orders.entity hm
    rw [Update.target, Update.announced, hentries]
    have hread := accepted_eq_some.mp h
    unfold ContextElement.readFromNGSILD at hread
    dsimp only at hread
    split_ifs at hread with hexist
    · simp at hread
    · obtain ⟨ce, hloop, hce⟩ := bind_eq_ok.mp hread
      obtain rfl : ce = e := by simpa using hce
      exact reads_loop (fun ce ce' entry => readEntry_reads) hjson hloop

theorem named_announced (n : String) (metadata : List ContextMetadata) :
    named Announced.name n (metadata.map announcedOf) = (entriesOf n metadata).map announcedOf := by
  rw [named, List.filter_map]
  rfl

theorem applyUpdate_typed_iff {cur : ContextElement}
    (hcur : ∀ metadata ∈ cur.metadata, Typed metadata) :
    (∀ metadata ∈ (applyUpdate cur e).metadata, Typed metadata) ↔
      ∀ n last, lastOf n e.metadata = some last →
        ∀ first, (entriesOf n cur.metadata ++ entriesOf n e.metadata).head? = some first →
          Typed (takeValue first last) := by
  constructor
  · intro h n last hlast first hfirst
    obtain ⟨first', hfirst', heq⟩ := entriesOf_applyUpdate cur hlast
    obtain rfl : first' = first := Option.some.inj (hfirst'.symm.trans hfirst)
    have hmem : takeValue first' last ∈ entriesOf n (applyUpdate cur e).metadata := by
      rw [heq]
      exact List.mem_cons_self
    exact h _ (mem_named.mp hmem).1
  · intro h metadata hmem
    have hentry : metadata ∈ entriesOf metadata.name (applyUpdate cur e).metadata :=
      mem_named.mpr ⟨hmem, rfl⟩
    cases hlast : lastOf metadata.name e.metadata with
    | none =>
      rw [entriesOf_applyUpdate_absent cur hlast] at hentry
      exact hcur metadata (mem_named.mp hentry).1
    | some last =>
      obtain ⟨first, hfirst, heq⟩ := entriesOf_applyUpdate cur hlast
      rw [heq] at hentry
      rcases List.mem_cons.mp hentry with rfl | htail
      · exact h _ last hlast first hfirst
      · exact hcur metadata (mem_named.mp (List.mem_of_mem_tail htail)).1

theorem fits_none_iff (h : u.read mapstructure = some e) (hget : entities.get u.target = none) :
    Fits entities u ↔ ∀ metadata ∈ e.metadata, Typed metadata := by
  have hannounced : (∀ a ∈ u.announced, a.type = "point" → a.point = true) ↔
      ∀ metadata ∈ e.metadata, Typed metadata := by
    rw [← (read_spec h).2, List.forall_mem_map]
    rfl
  rw [← hannounced]
  constructor
  · exact fun hfits => hfits.fresh hget
  · intro hall
    refine ⟨fun _ => hall, fun cur hcur => ?_⟩
    rw [hget] at hcur
    cases hcur

theorem fits_some_iff (h : u.read mapstructure = some e) {cur : ContextElement}
    (hget : entities.get u.target = some cur) :
    Fits entities u ↔ ∀ n last, lastOf n e.metadata = some last →
      ∀ first, (entriesOf n cur.metadata ++ entriesOf n e.metadata).head? = some first →
        Typed (takeValue first last) := by
  have hannounced := (read_spec h).2
  have htypes : ∀ n, (entriesOf n cur.metadata).map ContextMetadata.type ++
      (named Announced.name n u.announced).map Announced.type =
        (entriesOf n cur.metadata ++ entriesOf n e.metadata).map ContextMetadata.type := by
    intro n
    rw [← hannounced, named_announced, List.map_append, List.map_map]
    rfl
  constructor
  · intro hfits n last hlast first hfirst htype
    refine hfits.merged cur hget n (announcedOf last) ?_ ?_
    · rw [← hannounced, named_announced, List.getLast?_map, show (entriesOf n
        e.metadata).getLast? = some last from hlast]
      rfl
    · rw [htypes, List.head?_map, hfirst]
      exact congrArg some htype
  · intro hall
    refine ⟨fun hnone => ?_, ?_⟩
    · rw [hget] at hnone
      cases hnone
    intro cur' hcur' n announced hlast hfirst
    obtain rfl : cur = cur' := Option.some.inj (hget.symm.trans hcur')
    rw [← hannounced, named_announced, List.getLast?_map, Option.map_eq_some_iff] at hlast
    obtain ⟨last, hlast, rfl⟩ := hlast
    rw [htypes, List.head?_map, Option.map_eq_some_iff] at hfirst
    obtain ⟨first, hfirst, htype⟩ := hfirst
    exact hall n last hlast first hfirst htype

theorem step_pointsTyped_iff (hpoints : PointsTyped entities)
    (h : u.read mapstructure = some e) :
    PointsTyped (updateContextElement entities e) ↔ Fits entities u := by
  have hid := (read_spec h).1
  have hstored : PointsTyped (updateContextElement entities e) ↔
      ∀ metadata ∈ (((entities.get u.target).map (applyUpdate · e)).getD e).metadata,
        Typed metadata := by
    constructor
    · intro hall
      exact hall u.target _ (by rw [get_updateContextElement, hid, if_pos rfl])
    · intro hall eid stored hget
      rw [get_updateContextElement, hid] at hget
      split_ifs at hget with heid
      · rwa [← Option.some.inj hget]
      · exact hpoints eid stored hget
  rw [hstored]
  cases hget : entities.get u.target with
  | none => exact (fits_none_iff h hget).symm
  | some cur =>
    exact (applyUpdate_typed_iff (hpoints u.target cur hget)).trans (fits_some_iff h hget).symm

theorem isPoint_iff {v : Value} : isPoint v = true ↔ ∃ location, v = .point location := by
  cases v <;> simp [isPoint]

-- elements that are notified or queried carry the domain metadata of stored ones
theorem toNGSILDPayload_ends (hpoints : PointsTyped entities) {elems : List ContextElement}
    (hstored : ∀ elem ∈ elems, ∃ eid stored, entities.get eid = some stored ∧
      elem.metadata = stored.metadata) (addAtContext : Bool) :
    Loop.Ends (toNGSILDPayload elems addAtContext) := by
  have hends : ∀ elem ∈ elems, ∃ elementLD, toElementLD addAtContext elem = .ok elementLD ∧
      True := by
    intro elem helem
    obtain ⟨eid, stored, hget, hmetadata⟩ := hstored elem helem
    have hends : Loop.Ends (toElementLD addAtContext elem) :=
      toElementLD_ends_iff.mpr (fun domainMeta hmem hsent => isPoint_iff.mp
        (hpoints eid stored hget domainMeta (hmetadata ▸ hmem) hsent.2.1))
    obtain ⟨elementLD, hok⟩ := hends
    exact ⟨elementLD, hok, trivial⟩
  obtain ⟨elementsLD, hok, -⟩ := mapM_total hends
  exact ⟨elementsLD, hok⟩

theorem step_iff {t : Entities} (hpoints : PointsTyped entities)
    (h : step mapstructure entities u = some t) : PointsTyped t ↔ Fits entities u := by
  obtain ⟨e, he, rfl⟩ := Option.map_eq_some_iff.mp h
  exact step_pointsTyped_iff hpoints he

theorem pointsTyped_empty : PointsTyped ∅ := fun _ _ h => nomatch h

theorem always_pointsTyped_iff {us : List Update} {s : Entities}
    (hrun : exec (step mapstructure) ∅ us = some s) :
    (Always (step mapstructure) PointsTyped ∅ us ↔ Meets (step mapstructure) Fits ∅ us) ∧
      (Meets (step mapstructure) Fits ∅ us → ∀ done t, done <+: us →
        exec (step mapstructure) ∅ done = some t → ∀ elems : List ContextElement,
        (∀ elem ∈ elems, ∃ eid stored, t.get eid = some stored ∧
          elem.metadata = stored.metadata) →
        ∀ addAtContext, Loop.Ends (toNGSILDPayload elems addAtContext)) := by
  have hiff : Always (step mapstructure) PointsTyped ∅ us ↔
      Meets (step mapstructure) Fits ∅ us :=
    always_iff_meets (I := fun _ s => PointsTyped s) hrun pointsTyped_empty pointsTyped_empty
      (fun _ _ _ _ _ hs hfits ht => (step_iff hs ht).mpr hfits)
      (fun _ _ _ _ _ hs ht => (step_iff hs ht).symm)
  refine ⟨hiff, fun hfits done t hdone ht elems hstored addAtContext => ?_⟩
  exact toNGSILDPayload_ends (hiff.mpr hfits done t hdone ht) hstored addAtContext

def plainOrders : OrdersV2 := ⟨fun _ => 0, fun _ _ => 0⟩

-- an NGSIv2 client sends the location in the format of the other interfaces
def parkedCar : Update :=
  .ngsiv2 plainOrders (.object [("id", .string "car1"), ("type", .string "Car"),
    ("location", .object [("type", .string "point"), ("value", .object
      [("latitude", .number 49), ("longitude", .number 8)])])])

theorem parkedCar_read : ∃ e, parkedCar.read byFieldNames = some e ∧ e.entity.id = "car1" ∧
    e.metadata = [⟨"location", "point", .object [("latitude", .number 49),
      ("longitude", .number 8)], .null⟩] := by
  have hread : (parkedCar.read byFieldNames).map (fun e => (e.entity.id, e.metadata)) =
      some ("car1", [⟨"location", "point", .object [("latitude", .number 49),
        ("longitude", .number 8)], .null⟩]) := by
    decide
  obtain ⟨e, he, heq⟩ := Option.map_eq_some_iff.mp hread
  exact ⟨e, he, congrArg Prod.fst heq, congrArg Prod.snd heq⟩

theorem parkedCar_run : ∃ s, exec (step byFieldNames) ∅ [parkedCar] = some s ∧
    (Always (step byFieldNames) PointsTyped ∅ [parkedCar] ↔
      Meets (step byFieldNames) Fits ∅ [parkedCar]) ∧
      (Meets (step byFieldNames) Fits ∅ [parkedCar] → ∀ done t, done <+: [parkedCar] →
        exec (step byFieldNames) ∅ done = some t → ∀ elems : List ContextElement,
        (∀ elem ∈ elems, ∃ eid stored, t.get eid = some stored ∧
          elem.metadata = stored.metadata) →
        ∀ addAtContext, Loop.Ends (toNGSILDPayload elems addAtContext)) := by
  obtain ⟨e, he, -, -⟩ := parkedCar_read
  have hrun : exec (step byFieldNames) ∅ [parkedCar] = some (updateContextElement ∅ e) := by
    simp [exec, step, he]
  exact ⟨_, hrun, always_pointsTyped_iff hrun⟩

theorem parkedCar_cannot_be_sent : ∃ s e, exec (step byFieldNames) ∅ [parkedCar] = some s ∧
    s.get "car1" = some e ∧ (∃ metadata ∈ e.metadata, ¬ Typed metadata) ∧
    ¬ Loop.Ends (toNGSILDPayload [e] false) := by
  obtain ⟨e, he, hid, hmetadata⟩ := parkedCar_read
  refine ⟨updateContextElement ∅ e, e, by simp [exec, step, he], ?_, ?_, ?_⟩
  · rw [get_updateContextElement, hid]
    rfl
  · rw [hmetadata]
    exact ⟨_, List.mem_singleton_self _, fun htyped => absurd (htyped rfl) (by decide)⟩
  · rw [toNGSILDPayload, List.mapM_cons, ends_bind]
    rintro ⟨elementLD, hok, -⟩
    have hends := toElementLD_ends_iff.mp ⟨elementLD, hok⟩
    rw [hmetadata] at hends
    obtain ⟨location, hvalue⟩ := hends _ (List.mem_singleton_self _)
      ⟨by decide, rfl, by simp⟩
    cases hvalue

end PointMetadata

end FogFlow.Broker
