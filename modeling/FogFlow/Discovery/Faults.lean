import FogFlow.Discovery.Query
import FogFlow.Library.Execution
import FogFlow.Ngsi.Decoding

namespace FogFlow.Discovery

open Ngsi Loop Execution

inductive RepositoryLabel where
  | registerContext (attrRank : Nat → String → Nat) (registReq : RegisterContextRequest)
  | deleteRegistration (eid : String)

def repositoryStep (list : CtxRegistrationList) : RepositoryLabel → Option CtxRegistrationList
  | .registerContext attrRank registReq => some (updateRegistration attrRank list registReq)
  | .deleteRegistration eid => some (list.delete eid)

def RepositoryLabel.Decoded (mapstructure : MapDecode) : RepositoryLabel → Prop
  | .registerContext _ registReq => registReq.Decoded mapstructure
  | .deleteRegistration _ => True

def AllDecoded (mapstructure : MapDecode) (list : CtxRegistrationList) : Prop :=
  ∀ registration ∈ list.values, ∀ metadata ∈ registration.metadataList.values,
    metadata.Decoded mapstructure

variable {math : FloatMath} {matchString : MatchString} {json : JsonUnmarshal}
  {mapstructure : MapDecode}

theorem decoded_setMetadata {list : GoMap ContextMetadata} {metas : List ContextMetadata}
    (hlist : ∀ m ∈ list.values, m.Decoded mapstructure)
    (hmetas : ∀ m ∈ metas, m.Decoded mapstructure) :
    ∀ m ∈ (setMetadata list metas).values, m.Decoded mapstructure := by
  intro m hm
  rcases GoMap.mem_values_foldl_set hm with h | h
  · exact hmetas m h
  · exact hlist m h

theorem allDecoded_updateRegistrationInMemory {attrRank : String → Nat}
    {list : CtxRegistrationList} {entity : EntityId} {registration : ContextRegistration}
    (hlist : AllDecoded mapstructure list)
    (hmetas : ∀ m ∈ registration.metadata, m.Decoded mapstructure) :
    AllDecoded mapstructure (updateRegistrationInMemory attrRank list entity registration) := by
  intro r hr
  obtain ⟨eid, hget⟩ := GoMap.mem_values.mp hr
  rw [get_updateRegistrationInMemory] at hget
  split_ifs at hget
  · obtain rfl := Option.some.inj hget
    cases hold : list.get entity.id with
    | none => exact decoded_setMetadata (by simp [GoMap.values]) hmetas
    | some old =>
      exact decoded_setMetadata (hlist old (GoMap.mem_values.mpr ⟨_, hold⟩)) hmetas
  · exact hlist r (GoMap.mem_values.mpr ⟨_, hget⟩)

theorem allDecoded_updateRegistration {attrRank : Nat → String → Nat} {list : CtxRegistrationList}
    {registReq : RegisterContextRequest} (hlist : AllDecoded mapstructure list)
    (hreq : registReq.Decoded mapstructure) :
    AllDecoded mapstructure (updateRegistration attrRank list registReq) := by
  unfold updateRegistration
  refine List.foldlRecOn _ _ hlist (fun list hlist call hcall => ?_)
  have hmem := List.fst_mem_of_mem_zipIdx hcall
  simp only [List.mem_flatMap, List.mem_map] at hmem
  obtain ⟨registration, hregistration, entity, -, heq⟩ := hmem
  rw [← heq]
  exact allDecoded_updateRegistrationInMemory hlist (hreq registration hregistration)

theorem allDecoded_run {is : List RepositoryLabel} {list : CtxRegistrationList}
    (hdecoded : ∀ label ∈ is, label.Decoded mapstructure)
    (hrun : exec repositoryStep ∅ is = some list) : AllDecoded mapstructure list := by
  refine exec_induction (motive := fun _ list => AllDecoded mapstructure list) hrun ?_ ?_
  · intro r hr
    simp [GoMap.values] at hr
  · intro js label r t hp _ hr ht
    have hlabel := hdecoded label (hp.subset (by simp))
    cases label with
    | registerContext attrRank registReq =>
      obtain rfl := Option.some.inj ht
      exact allDecoded_updateRegistration hr hlabel
    | deleteRegistration eid =>
      obtain rfl := Option.some.inj ht
      intro q hq
      obtain ⟨k, -, hk⟩ := GoMap.mem_values_delete.mp hq
      exact hr q (GoMap.mem_values.mpr ⟨k, hk⟩)

def HasPoint (metadatas : GoMap ContextMetadata) : Prop :=
  ∃ metadata ∈ metadatas.values, metadata.type = "point"

def QueryFits (metadatas : GoMap ContextMetadata) (queryString : String) : Prop :=
  Reached (ConstraintHolds metadatas) (fun constraint => '=' ∈ constraint.toList)
    (strSplit queryString ";")

-- the type is spelled as the decoder spells it, and the value has what the filter takes from it
def ScopeFits (metadatas : GoMap ContextMetadata) (scope : OperationScope) : Prop :=
  (toLower scope.type = "circle" → HasPoint metadatas → scope.type = "circle") ∧
  (toLower scope.type = "polygon" → HasPoint metadatas →
    scope.type = "polygon" ∧ ∀ g, scope.value = .polygon g → g.vertices ≠ []) ∧
  (toLower scope.type = "stringquery" →
    scope.type = "stringQuery" ∧ ∀ q, scope.value = .string q → QueryFits metadatas q)

def DistanceFits (georel : String) : Prop :=
  ∀ contrain, (strSplit georel ";")[1]? = some contrain →
    removeSpaces contrain ≠ "maxDistance" ∧ removeSpaces contrain ≠ "minDistance"

def LdFits (metadatas : GoMap ContextMetadata) (restriction : Restriction) : Prop :=
  restriction.georel ≠ "" → coordinateOf metadatas ≠ .null →
    (toLower restriction.geometry = "point" →
      (toLower (typeOf metadatas) = "point" → EntityPair (coordinateOf metadatas) ∧
        ∃ locn, restriction.cordinates = .array locn ∧ TwoNumbers locn) ∧
      DistanceFits restriction.georel) ∧
    (toLower restriction.geometry = "polygon" →
      toLower (typeOf metadatas) ≠ "point" ∧
      (toLower (typeOf metadatas) = "polygon" →
        RelationFits (removeSpaces restriction.georel) (coordinateOf metadatas)
          restriction.cordinates))

variable (math matchString) in
def FiltersFit (registration : EntityRegistration) (idFilter : List EntityId)
    (attrFilter : List String) (metaFilter : Restriction) : Prop :=
  matchIds matchString registration idFilter = true →
  matchAttributes registration.attributesList attrFilter = true →
    if metaFilter.restrictionType = "ld" then LdFits registration.metadataList metaFilter
    else Reached (ScopeHolds math registration.metadataList) (ScopeFits registration.metadataList)
      metaFilter.scopes

def NearbyFits (restriction : Restriction) : Prop :=
  ∀ nearby, getNearbyFilter restriction = .ok (some nearby) → 0 ≤ nearby.limit

theorem matchConstraint_ends {metas : List ContextMetadata} {constraint : String} :
    Ends (matchConstraint metas constraint) ↔ '=' ∈ constraint.toList := by
  have hsplit : 1 < (strSplit constraint "=").length ↔ '=' ∈ constraint.toList := by
    rw [strSplit, List.length_map]
    exact Split.one_lt_length_split
  rw [← hsplit]
  unfold matchConstraint
  generalize strSplit constraint "=" = items
  match items with
  | [] => simp [index, ends_bind]
  | [x] => simp [index, ends_bind]
  | x :: y :: rest =>
    have h0 : index (x :: y :: rest) 0 = .ok x := rfl
    have h1 : index (x :: y :: rest) 1 = .ok y := rfl
    dsimp only
    rw [h0, h1, ok_bind, ok_bind, ends_bind_ok]
    refine iff_of_true ((allM_ends_of_const (C := True) (fun metadata => ?_)).mpr
      (Or.inr trivial)) (by simp)
    split_ifs
    · simp [goEq_string]
    · simp

theorem matchCircle_ends {metas : List ContextMetadata} {value : Value}
    (hmetas : ∀ m ∈ metas, m.type = "point" → ∃ p, m.value = .point p) :
    Ends (matchCircle math metas value) ↔
      ((∃ m ∈ metas, m.type = "point") → ∃ c, value = .circle c) := by
  refine allM_ends_of_skip (fun m _ hm => if_neg hm) (fun m hmem hm => ?_)
  obtain ⟨p, hp⟩ := hmetas m hmem hm
  simp [hm, hp, asPoint, ends_bind, asCircle_eq_ok]

theorem matchPolygon_ends {metas : List ContextMetadata} {value : Value}
    (hmetas : ∀ m ∈ metas, m.type = "point" → ∃ p, m.value = .point p) :
    Ends (matchPolygon math metas value) ↔
      ((∃ m ∈ metas, m.type = "point") → ∃ g, value = .polygon g ∧ g.vertices ≠ []) := by
  refine allM_ends_of_skip (fun m _ hm => if_neg hm) (fun m hmem hm => ?_)
  obtain ⟨p, hp⟩ := hmetas m hmem hm
  simp [hm, hp, asPoint, ends_bind, asPolygon_eq_ok, pointInPolygon, raycast_ends]

theorem matchStringQuery_ends {metaRank : Nat → String → Nat} {metadatas : GoMap ContextMetadata}
    {value : Value} :
    Ends (matchStringQuery metaRank metadatas value) ↔
      ∃ q, value = .string q ∧ QueryFits metadatas q := by
  unfold matchStringQuery
  rw [ends_bind]
  refine exists_congr (fun q => and_congr asString_eq_ok ?_)
  exact allM_zipIdx_ends (fun _ _ _ => matchConstraint_eq_true) (fun _ _ _ => matchConstraint_ends)

theorem exists_and_iff_of_injective {α β : Type} {f : α → β} {v : β} {P : α → Prop}
    (hf : Function.Injective f) :
    (∃ a, v = f a ∧ P a) ↔ (∃ a, v = f a) ∧ ∀ a, v = f a → P a := by
  constructor
  · rintro ⟨a, ha, hp⟩
    exact ⟨⟨a, ha⟩, fun a' ha' => hf (ha.symm.trans ha') ▸ hp⟩
  · rintro ⟨⟨a, ha⟩, hp⟩
    exact ⟨a, ha, hp a ha⟩

theorem matchScope_ends {metaRank : Nat → String → Nat} {metadatas : GoMap ContextMetadata}
    {scope : OperationScope} (hscope : scope.Decoded json)
    (hmetas : ∀ metadata ∈ metadatas.values, metadata.Decoded mapstructure) :
    Ends (matchScope math metaRank metadatas scope) ↔ ScopeFits metadatas scope := by
  have hpoint : ∀ m ∈ metas (metaRank 0) metadatas, m.type = "point" →
      ∃ p, m.value = .point p := fun m hm => (hmetas m (mem_metas.mp hm)).point
  unfold matchScope ScopeFits
  split_ifs with hcircle hpolygon hquery
  · rw [matchCircle_ends hpoint, hscope.circle]
    simp [hcircle, HasPoint]
  · rw [matchPolygon_ends hpoint]
    simp only [hpolygon, HasPoint, mem_metas, String.reduceEq, false_implies, true_implies,
      and_true, true_and]
    refine imp_congr_right (fun _ => ?_)
    rw [← hscope.polygon]
    exact exists_and_iff_of_injective fun _ _ => Value.polygon.inj
  · rw [matchStringQuery_ends]
    simp only [hquery, String.reduceEq, false_implies, true_implies, true_and]
    have hglobal : scope.type ≠ "global" := by
      intro h
      rw [h] at hquery
      exact absurd hquery (by decide)
    have hstring := hscope.string
    simp only [hglobal, false_or] at hstring
    rw [← hstring]
    exact exists_and_iff_of_injective fun _ _ => Value.string.inj
  · simp [hcircle, hpolygon, hquery]

theorem strSplit_eq_singleton {s sep x : String} (h : strSplit s sep = [x]) : x = s := by
  unfold strSplit at h
  obtain ⟨field, hfield, rfl⟩ := List.map_eq_singleton_iff.mp h
  rw [Split.split_eq_singleton hfield, String.ofList_toList]

theorem strSplit_ne_nil (s sep : String) : strSplit s sep ≠ [] := by
  simpa [strSplit] using Split.split_ne_nil

theorem not_bound_of_parts {s name value : String} {fields : List String}
    (h : strSplit s "==" = name :: value :: fields) : s ≠ "maxDistance" ∧ s ≠ "minDistance" := by
  have hmax : strSplit "maxDistance" "==" = ["maxDistance"] := by decide
  have hmin : strSplit "minDistance" "==" = ["minDistance"] := by decide
  constructor
  · rintro rfl
    simp [hmax] at h
  · rintro rfl
    simp [hmin] at h

-- a bound without a value is the name of the bound and nothing else
theorem matchDistance_ends {distMi : math.float64} {georel : String} :
    Ends (matchDistance math distMi (strSplit georel ";")) ↔ DistanceFits georel := by
  unfold DistanceFits
  generalize strSplit georel ";" = contrains
  match contrains with
  | [] => simp [matchDistance]
  | [x] => simp [matchDistance]
  | x :: contrain :: rest =>
    simp only [matchDistance, List.getElem?_cons_succ, List.getElem?_cons_zero, Option.some.injEq,
      forall_eq']
    generalize removeSpaces contrain = s
    cases hitems : strSplit s "==" with
    | nil => exact absurd hitems (strSplit_ne_nil s "==")
    | cons name fields =>
      have hname : index (name :: fields) 0 = .ok name := rfl
      rw [hname, ok_bind]
      cases fields with
      | nil =>
        obtain rfl : name = s := strSplit_eq_singleton hitems
        have hvalue : index [name] 1 = .error .indexOutOfRange := rfl
        rw [hvalue]
        split_ifs with hmax hmin <;> simp [*, ends_bind]
      | cons value fields =>
        have hvalue : index (name :: value :: fields) 1 = .ok value := rfl
        obtain ⟨hmax, hmin⟩ := not_bound_of_parts hitems
        rw [hvalue]
        split_ifs <;> simp [hmax, hmin]

theorem matchLdMetadatas_ends {metadatas : GoMap ContextMetadata} {restriction : Restriction} :
    Ends (matchLdMetadatas math metadatas restriction) ↔ LdFits metadatas restriction := by
  unfold matchLdMetadatas LdFits
  split_ifs with hgeorel hcoordinate hpoint hpolygon
  · simp [hgeorel]
  · simp [hcoordinate]
  · simp only [hgeorel, hcoordinate, hpoint, ne_eq, not_false_eq_true, true_implies,
      String.reduceEq, false_implies, and_true]
    rw [ends_bind, ← findDistForPoint_ends math]
    rw [exists_congr (fun distMi => and_congr_right (fun _ => matchDistance_ends))]
    exact exists_and_right
  · simp only [hgeorel, hcoordinate, hpolygon, ne_eq, not_false_eq_true, true_implies,
      String.reduceEq, false_implies, true_and]
    exact findDistForPolygon_ends
  · simp [hpoint, hpolygon]

theorem matchingWithFilters_ends (metaRank : MetaRank) {registration : EntityRegistration}
    {idFilter : List EntityId} {attrFilter : List String} {metaFilter : Restriction}
    (hfilter : metaFilter.Decoded json)
    (hmetas : ∀ metadata ∈ registration.metadataList.values, metadata.Decoded mapstructure) :
    Ends (matchingWithFilters math matchString metaRank registration idFilter attrFilter
      metaFilter) ↔ FiltersFit math matchString registration idFilter attrFilter metaFilter := by
  unfold matchingWithFilters FiltersFit
  by_cases hid : matchIds matchString registration idFilter = false
  · simp [hid]
  by_cases hattr : matchAttributes registration.attributesList attrFilter = false
  · simp [hattr]
  rw [if_neg hid, if_neg hattr]
  simp only [Bool.not_eq_false] at hid hattr
  simp only [hid, hattr, true_implies]
  split_ifs with hld
  · exact matchLdMetadatas_ends
  · exact allM_zipIdx_ends (fun scope _ _ => matchScope_eq_true)
      (fun scope hscope _ => matchScope_ends (hfilter scope hscope) hmetas)

theorem getLocation_ends {registration : EntityRegistration}
    (hmetas : ∀ metadata ∈ registration.metadataList.values, metadata.Decoded mapstructure) :
    Ends registration.getLocation := by
  unfold EntityRegistration.getLocation
  split
  case h_1 metadata hfind =>
    have htype : metadata.name = "location" ∧ metadata.type = "point" := by
      simpa using List.find?_some hfind
    obtain ⟨p, hp⟩ := (hmetas metadata (List.mem_of_find?_eq_some hfind)).point htype.2
    simp [hp]
  case h_2 => exact ends_ok _

theorem toCandidate_ends {nearby : Option NearBy} {registration : EntityRegistration}
    (hmetas : ∀ metadata ∈ registration.metadataList.values, metadata.Decoded mapstructure) :
    Ends (toCandidate math nearby registration) := by
  unfold toCandidate
  cases nearby with
  | none => exact ends_ok _
  | some nearby => exact ends_bind_ok.mpr (getLocation_ends hmetas)

theorem candidateOf_ends {metaRank : MetaRank} {nearby : Option NearBy}
    {registration : EntityRegistration} {entities : List EntityId} {attributes : List String}
    {restriction : Restriction} (hrestriction : restriction.Decoded json)
    (hmetas : ∀ metadata ∈ registration.metadataList.values, metadata.Decoded mapstructure) :
    Ends (candidateOf math matchString metaRank nearby entities attributes restriction
      registration) ↔ FiltersFit math matchString registration entities attributes restriction := by
  rw [← matchingWithFilters_ends metaRank hrestriction hmetas]
  unfold candidateOf
  rw [ends_bind]
  constructor
  · rintro ⟨matched, hmatched, -⟩
    exact ⟨matched, hmatched⟩
  · rintro ⟨matched, hmatched⟩
    refine ⟨matched, hmatched, ?_⟩
    cases matched with
    | false => exact ends_ok _
    | true => exact ends_bind_ok.mpr (toCandidate_ends hmetas)

theorem candidatesOf_ends (rank : String → Nat) (metaRank : String → MetaRank)
    (nearby : Option NearBy) {list : CtxRegistrationList} {entities : List EntityId}
    {attributes : List String} {restriction : Restriction}
    (hrestriction : restriction.Decoded json) (hlist : AllDecoded mapstructure list) :
    Ends (candidatesOf math matchString rank metaRank list nearby entities attributes
      restriction) ↔ ∀ registration ∈ list.values,
        FiltersFit math matchString registration entities attributes restriction := by
  unfold candidatesOf
  rw [foldlM_ends]
  constructor
  · intro h registration hr
    obtain ⟨eid, heid⟩ := GoMap.mem_values.mp hr
    exact (candidateOf_ends hrestriction (hlist registration hr)).mp
      (h ⟨eid, registration⟩ (GoMap.mem_range.mpr heid))
  · rintro h ⟨eid, registration⟩ he
    have hr := GoMap.mem_values.mpr ⟨eid, GoMap.mem_range.mp he⟩
    exact (candidateOf_ends hrestriction (hlist registration hr)).mpr (h registration hr)

theorem getNearbyFilter_ends {restriction : Restriction} (hrestriction : restriction.Decoded json) :
    Ends (getNearbyFilter restriction) := by
  unfold getNearbyFilter
  split
  case h_1 scope hfind =>
    have htype : scope.type = "nearby" := by simpa using List.find?_some hfind
    obtain ⟨n, hn⟩ := (hrestriction scope (List.mem_of_find?_eq_some hfind)).nearBy.mpr htype
    simp [hn, asNearBy]
  case h_2 => exact ends_ok _

theorem closest_ends {nearby : Option NearBy} {candidates : List Candidate} :
    Ends (closest nearby candidates) ↔ ∀ n, nearby = some n → 0 ≤ n.limit := by
  cases nearby with
  | none => simp [closest]
  | some n =>
    simp only [closest, Option.some.injEq, forall_eq']
    split_ifs with hlen hneg
    · simpa using hneg
    · simpa using hneg
    · refine iff_of_true (ends_ok _) ?_
      omega

theorem queryEntities_ends {rank : String → Nat} {metaRank : String → MetaRank}
    {list : CtxRegistrationList} {entities : List EntityId} {attributes : List String}
    {restriction : Restriction} (hrestriction : restriction.Decoded json)
    (hlist : AllDecoded mapstructure list) :
    Ends (queryEntities math matchString rank metaRank list entities attributes restriction) ↔
      NearbyFits restriction ∧ ∀ registration ∈ list.values,
        FiltersFit math matchString registration entities attributes restriction := by
  obtain ⟨nearby, hnearby⟩ := getNearbyFilter_ends hrestriction
  unfold queryEntities NearbyFits
  rw [hnearby, ok_bind, ends_bind, ← candidatesOf_ends rank metaRank nearby hrestriction
    hlist]
  simp only [ends_bind_ok, closest_ends, Except.ok.injEq]
  rw [exists_and_right, and_comm]
  rfl

theorem discovery_faultless_iff {rank : String → Nat} {metaRank : String → MetaRank}
    {is : List RepositoryLabel} {list : CtxRegistrationList} {entities : List EntityId}
    {attributes : List String} {restriction : Restriction}
    (hdecoded : ∀ label ∈ is, label.Decoded mapstructure)
    (hrun : exec repositoryStep ∅ is = some list) (hrestriction : restriction.Decoded json) :
    (Ends (queryEntities math matchString rank metaRank list entities attributes restriction) ∧
      ∀ eid registration, list.get eid = some registration →
        Ends (matchingWithFilters math matchString (metaRank eid) registration entities attributes
          restriction)) ↔
    NearbyFits restriction ∧ ∀ registration ∈ list.values,
      FiltersFit math matchString registration entities attributes restriction := by
  have hlist := allDecoded_run hdecoded hrun
  rw [queryEntities_ends hrestriction hlist]
  constructor
  · exact fun h => h.1
  · rintro ⟨hnearby, hfit⟩
    refine ⟨⟨hnearby, hfit⟩, fun eid registration hget => ?_⟩
    have hr := GoMap.mem_values.mpr ⟨eid, hget⟩
    exact (matchingWithFilters_ends _ hrestriction (hlist registration hr)).mpr (hfit registration hr)

def exampleJson : JsonUnmarshal where
  segment _ := none
  circle _ := none
  point _ := none
  polygon _ := none
  nearBy _ := none
  string value :=
    if value = "\"floor\"" then some "floor"
    else if value = "\"floor=3\"" then some "floor=3"
    else none

def exampleDecode : MapDecode := ⟨fun _ => none, fun _ => none, fun _ => none⟩

def room : EntityId := ⟨"Room", false, "Room.1"⟩

def roomRegistered : RepositoryLabel :=
  .registerContext (fun _ _ => 0)
    ⟨[⟨[room], [], [⟨"floor", "string", .string "3", .null⟩], "http://broker"⟩], "", ""⟩

def roomList : CtxRegistrationList :=
  (GoMap.set ∅ "Room.1" ⟨"Room.1", "Room", ∅,
    GoMap.set ∅ "floor" ⟨"floor", "string", .string "3", .null⟩, "http://broker"⟩)

def floorQuery (value : String) : Restriction :=
  ⟨[⟨"stringQuery", .string value⟩], .null, "", "", ""⟩

theorem roomRegistered_decoded : ∀ label ∈ [roomRegistered], label.Decoded exampleDecode := by
  simp only [List.mem_singleton, forall_eq, roomRegistered, RepositoryLabel.Decoded,
    RegisterContextRequest.Decoded]
  exact ⟨⟨"floor", "string", .string "3", .null⟩, by decide⟩

theorem roomList_reached : exec repositoryStep ∅ [roomRegistered] = some roomList := rfl

theorem floorQuery_decoded {value : String}
    (hvalue : exampleJson.string ("\"" ++ value ++ "\"") = some value) :
    (floorQuery value).Decoded exampleJson := by
  simp only [Restriction.Decoded, floorQuery, List.mem_singleton, forall_eq]
  exact ⟨"stringQuery", "\"" ++ value ++ "\"", by simp [OperationScope.unmarshalJSON, hvalue]⟩

theorem discovery_faultless_on_floor :
    Ends (queryEntities exampleMath (fun _ _ => false) (fun _ => 0) (fun _ _ _ _ => 0) roomList
      [room] [] (floorQuery "floor=3")) := by
  refine ((discovery_faultless_iff roomRegistered_decoded roomList_reached
    (floorQuery_decoded (by decide))).mpr ⟨?_, ?_⟩).1
  · intro nearby h
    cases h
  · intro registration _ _ _
    have hcircle : toLower "stringQuery" ≠ "circle" := by decide
    have hpolygon : toLower "stringQuery" ≠ "polygon" := by decide
    refine ⟨⟨fun h => absurd h hcircle, fun h => absurd h hpolygon, fun _ => ⟨rfl, ?_⟩⟩,
      fun _ => trivial⟩
    rintro q ⟨⟩
    exact ⟨by decide, fun _ => trivial⟩

theorem discovery_faults_on_floor :
    (∀ label ∈ [roomRegistered], label.Decoded exampleDecode) ∧
      exec repositoryStep ∅ [roomRegistered] = some roomList ∧
      (floorQuery "floor").Decoded exampleJson ∧
      queryEntities exampleMath (fun _ _ => false) (fun _ => 0) (fun _ _ _ _ => 0) roomList
        [room] [] (floorQuery "floor") = .error .indexOutOfRange :=
  ⟨roomRegistered_decoded, roomList_reached, floorQuery_decoded (by decide), by decide⟩

end FogFlow.Discovery
