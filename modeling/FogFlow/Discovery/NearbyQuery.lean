import Mathlib.Data.List.Perm.Basic
import FogFlow.Discovery.Query

namespace FogFlow.Discovery.NearbyQuery

open Ngsi Loop

-- sort.Slice yields some sorted permutation, and candidates at the same distance in any order
structure SliceSort where
  sort : List Candidate → List Candidate
  perm : ∀ candidates, (sort candidates).Perm candidates
  sorted : ∀ candidates, (sort candidates).Pairwise (fun a b => a.distance ≤ b.distance)

-- the loop over the repository, and for each registration those of the filters and of GetLocation
structure Orders where
  rank : String → Nat
  metaRank : String → MetaRank
  locationRank : String → String → Nat

def getLocation (rank : String → Nat) (registration : EntityRegistration) : Except Fault Point :=
  match (registration.metadataList.range rank).find?
      (fun domainMeta => domainMeta.2.name == "location" && domainMeta.2.type == "point") with
  | some domainMeta => asPoint domainMeta.2.value
  | none => .ok ⟨0, 0⟩

variable (math : FloatMath)

def toCandidate (rank : String → Nat) (nearby : Option NearBy) (registration : EntityRegistration) :
    Except Fault Candidate :=
  match nearby with
  | some nearby => do
      let location ← getLocation rank registration
      .ok ⟨registration.providingApplication, registration.id, registration.type,
        math.distance location ⟨nearby.latitude, nearby.longitude⟩⟩
  | none => .ok ⟨registration.providingApplication, registration.id, registration.type, 0⟩

def candidateOf (matchString : MatchString) (orders : Orders) (nearby : Option NearBy)
    (entities : List EntityId) (attributes : List String) (restriction : Restriction)
    (e : GoMap.Entry EntityRegistration) : Except Fault (Option Candidate) := do
  let matched ← matchingWithFilters math matchString (orders.metaRank e.1) e.2 entities attributes
    restriction
  if matched then do
    let candidate ← toCandidate math (orders.locationRank e.1) nearby e.2
    .ok (some candidate)
  else .ok none

def limitTo (sortSlice : SliceSort) (nearby : Option NearBy) (candidates : List Candidate) :
    Except Fault (List Candidate) :=
  match nearby with
  | some nearby =>
      if (candidates.length : Int) > nearby.limit then
        if nearby.limit < 0 then .error .sliceBounds
        else .ok ((sortSlice.sort candidates).take nearby.limit.toNat)
      else .ok candidates
  | none => .ok candidates

def queryEntitiesInMemory (matchString : MatchString) (sortSlice : SliceSort) (orders : Orders)
    (list : CtxRegistrationList) (entities : List EntityId) (attributes : List String)
    (restriction : Restriction) : Except Fault (GoMap (List EntityId)) := do
  let nearby ← getNearbyFilter restriction
  let candidates ← (list.range orders.rank).foldlM (fun candidates e => do
    let candidate ← candidateOf math matchString orders nearby entities attributes restriction e
    .ok (candidates ++ candidate.toList)) []
  let candidates ← limitTo sortSlice nearby candidates
  .ok (entityMapOf candidates)

-- the entities of the answer, each with the provider it is listed under
def listed (entityMap : GoMap (List EntityId)) : List (String × EntityId) :=
  entityMap.entries.flatMap (fun e => e.2.map (fun entity => (e.1, entity)))

def matching (matchString : MatchString) (orders : Orders) (list : CtxRegistrationList)
    (entities : List EntityId) (attributes : List String) (restriction : Restriction) :
    List (GoMap.Entry EntityRegistration) :=
  (list.range orders.rank).filter (fun e => decide (matchingWithFilters math matchString
    (orders.metaRank e.1) e.2 entities attributes restriction = .ok true))

def Keyed (list : CtxRegistrationList) : Prop :=
  ∀ eid registration, list.get eid = some registration → registration.id = eid

def Located (list : CtxRegistrationList) : Prop :=
  ∀ eid registration, list.get eid = some registration → ∀ name domainMeta,
    registration.metadataList.get name = some domainMeta → domainMeta.name = "location" →
      domainMeta.type = "point" → ∃ p, domainMeta.value = .point p

-- the answer to a nearby query, as the entries of the repository that it lists
structure Nearest (orders : Orders) (nearby : NearBy)
    (matched chosen : List (GoMap.Entry EntityRegistration)) : Prop where
  count : chosen.length = min nearby.limit.toNat matched.length
  distinct : (chosen.map (fun e => e.2.id)).Nodup
  filtered : ∀ e ∈ chosen, e ∈ matched
  closest : ∀ e ∈ chosen, ∀ e' ∈ matched, e' ∉ chosen → ∃ location location',
    getLocation (orders.locationRank e.1) e.2 = .ok location ∧
      getLocation (orders.locationRank e'.1) e'.2 = .ok location' ∧
      math.distance location ⟨nearby.latitude, nearby.longitude⟩ ≤
        math.distance location' ⟨nearby.latitude, nearby.longitude⟩

def answerOf (e : GoMap.Entry EntityRegistration) : String × EntityId :=
  (e.2.providingApplication, ⟨e.2.type, false, e.2.id⟩)

-- the distance is only looked at where GetLocation has returned
def distanceOf (orders : Orders) (nearby : NearBy) (e : GoMap.Entry EntityRegistration) : Nat :=
  match getLocation (orders.locationRank e.1) e.2 with
  | .ok location => math.distance location ⟨nearby.latitude, nearby.longitude⟩
  | .error _ => 0

def candidateAt (orders : Orders) (nearby : NearBy) (e : GoMap.Entry EntityRegistration) :
    Candidate :=
  ⟨e.2.providingApplication, e.2.id, e.2.type, distanceOf math orders nearby e⟩

variable {math} {matchString : MatchString} {sortSlice : SliceSort} {orders : Orders}
  {list : CtxRegistrationList} {entities : List EntityId} {attributes : List String}
  {restriction : Restriction} {nearby : NearBy} {e : GoMap.Entry EntityRegistration}

theorem mem_matching : e ∈ matching math matchString orders list entities attributes restriction ↔
    list.get e.1 = some e.2 ∧ matchingWithFilters math matchString (orders.metaRank e.1) e.2
      entities attributes restriction = .ok true := by
  rw [matching, List.mem_filter, decide_eq_true_iff]
  exact and_congr_left' GoMap.mem_range

theorem getLocation_ends (hlocated : Located list) (hget : list.get e.1 = some e.2)
    (rank : String → Nat) : ∃ location, getLocation rank e.2 = .ok location := by
  unfold getLocation
  cases hfind : (e.2.metadataList.range rank).find?
      (fun domainMeta => domainMeta.2.name == "location" && domainMeta.2.type == "point") with
  | none => exact ⟨_, rfl⟩
  | some domainMeta =>
    have hmem := GoMap.mem_range.mp (List.mem_of_find?_eq_some hfind)
    have htest := List.find?_some hfind
    rw [Bool.and_eq_true, beq_iff_eq, beq_iff_eq] at htest
    obtain ⟨p, hp⟩ := hlocated e.1 e.2 hget _ _ hmem htest.1 htest.2
    exact ⟨p, asPoint_eq_ok.mpr hp⟩

theorem toCandidate_eq (hlocated : Located list) (hget : list.get e.1 = some e.2) :
    toCandidate math (orders.locationRank e.1) (some nearby) e.2 =
      .ok (candidateAt math orders nearby e) := by
  obtain ⟨location, hlocation⟩ := getLocation_ends hlocated hget (orders.locationRank e.1)
  unfold toCandidate candidateAt distanceOf
  rw [hlocation]
  rfl

theorem candidateOf_eq (hlocated : Located list) (hget : list.get e.1 = some e.2)
    (hends : Ends (matchingWithFilters math matchString (orders.metaRank e.1) e.2 entities
      attributes restriction)) :
    candidateOf math matchString orders (some nearby) entities attributes restriction e =
      .ok (if matchingWithFilters math matchString (orders.metaRank e.1) e.2 entities attributes
        restriction = .ok true then some (candidateAt math orders nearby e) else none) := by
  obtain ⟨matched, hmatched⟩ := hends
  unfold candidateOf
  rw [hmatched, ok_bind]
  cases matched with
  | false => simp
  | true => simp [toCandidate_eq hlocated hget]

theorem candidates_eq (hlocated : Located list)
    (hends : ∀ eid registration, list.get eid = some registration →
      Ends (matchingWithFilters math matchString (orders.metaRank eid) registration entities
        attributes restriction)) :
    (list.range orders.rank).foldlM (fun candidates e => do
      let candidate ← candidateOf math matchString orders (some nearby) entities attributes
        restriction e
      .ok (candidates ++ candidate.toList)) [] =
      .ok ((matching math matchString orders list entities attributes restriction).map
        (candidateAt math orders nearby)) := by
  rw [foldlM_collect (g := fun e => if decide (matchingWithFilters math matchString
    (orders.metaRank e.1) e.2 entities attributes restriction = .ok true) then
      [candidateAt math orders nearby e] else []) [] ?_]
  · rw [flatMap_ite, List.nil_append]
    rfl
  · rintro e he candidates
    have hget := GoMap.mem_range.mp he
    rw [candidateOf_eq hlocated hget (hends e.1 e.2 hget), ok_bind]
    by_cases hmatch : matchingWithFilters math matchString (orders.metaRank e.1) e.2 entities
        attributes restriction = .ok true <;> simp [hmatch]

-- whatever order the sort leaves ties in, what it cuts off is no closer than what it keeps
theorem limitTo_eq (sortSlice : SliceSort) {α : Type} (f : α → Candidate) (xs : List α)
    (hlimit : 0 ≤ nearby.limit) :
    ∃ kept left : List α, (kept ++ left).Perm xs ∧
      limitTo sortSlice (some nearby) (xs.map f) = .ok (kept.map f) ∧
      kept.length = min nearby.limit.toNat xs.length ∧
      ∀ x ∈ kept, ∀ y ∈ left, (f x).distance ≤ (f y).distance := by
  unfold limitTo
  dsimp only
  rw [List.length_map]
  split_ifs with hlong hneg
  · omega
  · have hperm := sortSlice.perm (xs.map f)
    have hsorted := sortSlice.sorted (xs.map f)
    have hcomp := congrFun (congrFun (List.eq_map_comp_perm f) (sortSlice.sort (xs.map f))) xs
    obtain ⟨ordered, hmap, hordered⟩ := hcomp.mpr hperm
    rw [hmap, List.pairwise_map] at hsorted
    refine ⟨ordered.take nearby.limit.toNat, ordered.drop nearby.limit.toNat, ?_, ?_, ?_, ?_⟩
    · rw [List.take_append_drop]
      exact hordered
    · rw [hmap, List.map_take]
    · rw [List.length_take, hordered.length_eq]
    · rw [← List.take_append_drop nearby.limit.toNat ordered] at hsorted
      exact (List.pairwise_append.mp hsorted).2.2
  · refine ⟨xs, [], by simp, rfl, ?_, by simp⟩
    omega

theorem perm_listed (candidates : List Candidate) :
    (listed (entityMapOf candidates)).Perm
      (candidates.map (fun c => (c.providerURL, ⟨c.type, false, c.id⟩))) := by
  have hcollect := GoMap.perm_flatMap_collect Candidate.providerURL
    (fun c => [(⟨c.type, false, c.id⟩ : EntityId)]) (fun url entity => [(url, entity)])
    (fun _ => 0) candidates
  have hrange := (GoMap.range_perm (fun _ => 0) (entityMapOf candidates)).flatMap_right
    (fun e => e.2.map (fun entity => (e.1, entity)))
  simp only [List.flatMap_singleton, ← List.map_eq_flatMap] at hcollect
  exact hrange.symm.trans hcollect

theorem matching_ids_nodup (hkeyed : Keyed list) :
    ((matching math matchString orders list entities attributes restriction).map
      (fun e => e.2.id)).Nodup := by
  have hkeys : ((matching math matchString orders list entities attributes restriction).map
      (fun e => e.1)).Nodup :=
    (List.filter_sublist.map _).nodup (GoMap.range_keys_nodup orders.rank list)
  have hids : (matching math matchString orders list entities attributes restriction).map
      (fun e => e.2.id) = (matching math matchString orders list entities attributes
        restriction).map (fun e => e.1) :=
    List.map_congr_left (fun e he => hkeyed e.1 e.2 (mem_matching.mp he).1)
  rw [hids]
  exact hkeys

theorem distanceOf_eq (math : FloatMath) (orders : Orders) (nearby : NearBy)
    (hlocated : Located list) (hget : list.get e.1 = some e.2) :
    ∃ location, getLocation (orders.locationRank e.1) e.2 = .ok location ∧
      distanceOf math orders nearby e =
        math.distance location ⟨nearby.latitude, nearby.longitude⟩ := by
  obtain ⟨location, hlocation⟩ := getLocation_ends hlocated hget (orders.locationRank e.1)
  refine ⟨location, hlocation, ?_⟩
  unfold distanceOf
  rw [hlocation]

-- the sort that the rest of the model uses
def stableSort : SliceSort where
  sort candidates := candidates.insertionSort (fun a b => a.distance ≤ b.distance)
  perm := List.perm_insertionSort _
  sorted := List.pairwise_insertionSort _

theorem getLocation_entries (registration : EntityRegistration) :
    getLocation (fun _ => 0) registration = registration.getLocation := by
  have hrange : registration.metadataList.range (fun _ => 0) = registration.metadataList.entries :=
    List.Pairwise.insertionSort_eq (List.pairwise_of_forall (fun _ _ => le_refl 0))
  unfold getLocation EntityRegistration.getLocation GoMap.values
  rw [hrange, List.find?_map]
  simp only [Function.comp_def]
  cases List.find? _ registration.metadataList.entries with
  | none => rfl
  | some e => cases e.2.value <;> rfl

theorem queryEntities_eq (math : FloatMath) (matchString : MatchString) (rank : String → Nat)
    (metaRank : String → MetaRank) (list : CtxRegistrationList) (entities : List EntityId)
    (attributes : List String) (restriction : Restriction) :
    queryEntities math matchString rank metaRank list entities attributes restriction =
      queryEntitiesInMemory math matchString stableSort ⟨rank, metaRank, fun _ _ => 0⟩ list entities
        attributes restriction := by
  have hto : toCandidate math (fun _ => 0) = Discovery.toCandidate math := by
    funext nearby registration
    cases nearby with
    | none => rfl
    | some nearby => simp only [toCandidate, Discovery.toCandidate, getLocation_entries]
  have hcandidate (nearby : Option NearBy) (e : GoMap.Entry EntityRegistration) :
      candidateOf math matchString ⟨rank, metaRank, fun _ _ => 0⟩ nearby entities attributes
        restriction e =
      Discovery.candidateOf math matchString (metaRank e.1) nearby entities attributes restriction
        e.2 := by
    unfold candidateOf Discovery.candidateOf
    dsimp only
    rw [hto]
  have hlimit : limitTo stableSort = closest := rfl
  unfold queryEntities candidatesOf queryEntitiesInMemory
  simp only [hcandidate, hlimit]

theorem nearest_entities_listed (math : FloatMath) (matchString : MatchString)
    (sortSlice : SliceSort) (orders : Orders) (list : CtxRegistrationList)
    (entities : List EntityId) (attributes : List String) (restriction : Restriction)
    (nearby : NearBy) (hkeyed : Keyed list) (hlocated : Located list)
    (hnearby : getNearbyFilter restriction = .ok (some nearby)) (hlimit : 0 ≤ nearby.limit)
    (hends : ∀ eid registration, list.get eid = some registration →
      Ends (matchingWithFilters math matchString (orders.metaRank eid) registration entities
        attributes restriction)) :
    ∃ entityMap chosen,
      queryEntitiesInMemory math matchString sortSlice orders list entities attributes restriction =
        .ok entityMap ∧
      Nearest math orders nearby
        (matching math matchString orders list entities attributes restriction) chosen ∧
      (listed entityMap).Perm (chosen.map answerOf) := by
  obtain ⟨kept, left, hperm, hcut, hlength, hclosest⟩ := limitTo_eq sortSlice
    (candidateAt math orders nearby)
    (matching math matchString orders list entities attributes restriction) hlimit
  have hmem (e) (he : e ∈ kept) :
      e ∈ matching math matchString orders list entities attributes restriction :=
    hperm.subset (List.mem_append_left _ he)
  refine ⟨entityMapOf (kept.map (candidateAt math orders nearby)), kept, ?_, ?_, ?_⟩
  · unfold queryEntitiesInMemory
    rw [hnearby, ok_bind, candidates_eq hlocated hends, ok_bind, hcut, ok_bind]
  · refine ⟨hlength, ?_, hmem, fun e he e' he' hleft => ?_⟩
    · have hids := (hperm.map (fun e => e.2.id)).nodup_iff.mpr (matching_ids_nodup hkeyed)
      rw [List.map_append] at hids
      exact (List.nodup_append.mp hids).1
    · have he'left : e' ∈ left := (List.mem_append.mp (hperm.mem_iff.mpr he')).resolve_left hleft
      obtain ⟨location, hlocation, hdist⟩ := distanceOf_eq math orders nearby
        hlocated (mem_matching.mp (hmem e he)).1
      obtain ⟨location', hlocation', hdist'⟩ := distanceOf_eq math orders nearby
        hlocated (mem_matching.mp he').1
      refine ⟨location, location', hlocation, hlocation', ?_⟩
      rw [← hdist, ← hdist']
      exact hclosest e he e' he'left
  · refine (perm_listed _).trans (List.Perm.of_eq ?_)
    rw [List.map_map]
    rfl

def lineMath : FloatMath :=
  { exampleMath with distance := fun a b => (a.latitude - b.latitude).floor.natAbs }

def carAt (eid : String) (latitude : ℚ) : EntityRegistration :=
  ⟨eid, "Car", ∅, GoMap.set ∅ "location" ⟨"location", "point", .point ⟨latitude, 0⟩, .null⟩,
    "http://broker"⟩

def carList : CtxRegistrationList :=
  (GoMap.set ∅ "car1" (carAt "car1" 3)).set "car2" (carAt "car2" 1)

def nearestCar : Restriction := ⟨[⟨"nearby", .nearBy ⟨0, 0, 1⟩⟩], .null, "", "", ""⟩

theorem carList_get {eid : String} {registration : EntityRegistration}
    (h : carList.get eid = some registration) :
    registration = carAt "car1" 3 ∧ eid = "car1" ∨ registration = carAt "car2" 1 ∧ eid = "car2" := by
  rw [carList, GoMap.get_set, GoMap.get_set] at h
  split_ifs at h with h2 h1
  · exact Or.inr ⟨(Option.some.inj h).symm, h2⟩
  · exact Or.inl ⟨(Option.some.inj h).symm, h1⟩
  · cases h

theorem carList_located : Located carList := by
  intro eid registration hget name domainMeta hmeta _ _
  rcases carList_get hget with ⟨rfl, -⟩ | ⟨rfl, -⟩
  all_goals
    rw [carAt, GoMap.get_set] at hmeta
    split_ifs at hmeta
    · rw [← Option.some.inj hmeta]
      exact ⟨_, rfl⟩
    · cases hmeta

theorem nearest_car_listed :
    ∃ entityMap, queryEntitiesInMemory lineMath (fun _ _ => true) stableSort
        ⟨fun _ => 0, fun _ _ _ _ => 0, fun _ _ => 0⟩ carList [⟨"", true, "car"⟩] [] nearestCar =
        .ok entityMap ∧ (listed entityMap).length = 1 := by
  obtain ⟨entityMap, chosen, hquery, hnearest, hlisted⟩ := nearest_entities_listed lineMath
    (fun _ _ => true) stableSort ⟨fun _ => 0, fun _ _ _ _ => 0, fun _ _ => 0⟩ carList
    [⟨"", true, "car"⟩] [] nearestCar ⟨0, 0, 1⟩
    (fun eid registration hget => by
      rcases carList_get hget with ⟨rfl, rfl⟩ | ⟨rfl, rfl⟩ <;> rfl)
    carList_located rfl (by decide)
    (fun eid registration hget => by
      rcases carList_get hget with ⟨rfl, rfl⟩ | ⟨rfl, rfl⟩ <;> exact ⟨true, by decide⟩)
  refine ⟨entityMap, hquery, ?_⟩
  rw [hlisted.length_eq, List.length_map, hnearest.count]
  decide

end FogFlow.Discovery.NearbyQuery
