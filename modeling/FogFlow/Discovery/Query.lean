import FogFlow.Discovery.Filters
import FogFlow.Discovery.Repository

namespace FogFlow.Discovery

open Ngsi Loop

structure Candidate where
  providerURL : String
  id : String
  type : String
  distance : Nat
deriving DecidableEq, Repr

def asNearBy : Value → Except Fault NearBy
  | .nearBy n => .ok n
  | _ => .error .typeAssertion

def getNearbyFilter (restriction : Restriction) : Except Fault (Option NearBy) :=
  match restriction.scopes.find? (fun scope => scope.type == "nearby") with
  | some scope => do
      let nearby ← asNearBy scope.value
      .ok (some nearby)
  | none => .ok none

variable (math : FloatMath)

def toCandidate (nearby : Option NearBy) (registration : EntityRegistration) :
    Except Fault Candidate :=
  match nearby with
  | some nearby => do
      let location ← registration.getLocation
      .ok ⟨registration.providingApplication, registration.id, registration.type,
        math.distance location ⟨nearby.latitude, nearby.longitude⟩⟩
  | none => .ok ⟨registration.providingApplication, registration.id, registration.type, 0⟩

def candidateOf (matchString : MatchString) (metaRank : MetaRank) (nearby : Option NearBy)
    (entities : List EntityId) (attributes : List String) (restriction : Restriction)
    (registration : EntityRegistration) : Except Fault (Option Candidate) := do
  let matched ← matchingWithFilters math matchString metaRank registration entities attributes
    restriction
  if matched then do
    let candidate ← toCandidate math nearby registration
    .ok (some candidate)
  else .ok none

def candidatesOf (matchString : MatchString) (rank : String → Nat) (metaRank : String → MetaRank)
    (list : CtxRegistrationList) (nearby : Option NearBy) (entities : List EntityId)
    (attributes : List String) (restriction : Restriction) : Except Fault (List Candidate) :=
  (list.range rank).foldlM (fun candidates e => do
    let candidate ← candidateOf math matchString (metaRank e.1) nearby entities attributes
      restriction e.2
    .ok (candidates ++ candidate.toList)) []

-- candidates at the same distance are left in the order in which the map loop found them
def closest (nearby : Option NearBy) (candidates : List Candidate) :
    Except Fault (List Candidate) :=
  match nearby with
  | some nearby =>
      if (candidates.length : Int) > nearby.limit then
        if nearby.limit < 0 then .error .sliceBounds
        else .ok ((candidates.insertionSort (fun a b => a.distance ≤ b.distance)).take
          nearby.limit.toNat)
      else .ok candidates
  | none => .ok candidates

def entityMapOf (candidates : List Candidate) : GoMap (List EntityId) :=
  candidates.foldl (fun entityMap candidate =>
    entityMap.set candidate.providerURL
      (entityMap.slice candidate.providerURL ++ [⟨candidate.type, false, candidate.id⟩])) ∅

def queryEntities (matchString : MatchString) (rank : String → Nat) (metaRank : String → MetaRank)
    (list : CtxRegistrationList) (entities : List EntityId) (attributes : List String)
    (restriction : Restriction) : Except Fault (GoMap (List EntityId)) := do
  let nearby ← getNearbyFilter restriction
  let candidates ← candidatesOf math matchString rank metaRank list nearby entities attributes
    restriction
  let candidates ← closest nearby candidates
  .ok (entityMapOf candidates)

variable {math} {matchString : MatchString} {rank : String → Nat} {metaRank : String → MetaRank}
  {list : CtxRegistrationList} {nearby : Option NearBy} {entities : List EntityId}
  {attributes : List String} {restriction : Restriction} {candidates chosen : List Candidate}
  {c : Candidate}

structure Describes (c : Candidate) (registration : EntityRegistration) : Prop where
  provider : c.providerURL = registration.providingApplication
  id : c.id = registration.id
  type : c.type = registration.type

theorem describes_toCandidate {registration : EntityRegistration}
    (h : toCandidate math nearby registration = .ok c) : Describes c registration := by
  unfold toCandidate at h
  cases nearby with
  | none =>
    rw [← Except.ok.inj h]
    exact ⟨rfl, rfl, rfl⟩
  | some n =>
    obtain ⟨location, -, hc⟩ := bind_eq_ok.mp h
    rw [← Except.ok.inj hc]
    exact ⟨rfl, rfl, rfl⟩

theorem candidateOf_eq_some {rankings : MetaRank} {registration : EntityRegistration}
    (h : candidateOf math matchString rankings nearby entities attributes restriction
      registration = .ok (some c)) :
    matchingWithFilters math matchString rankings registration entities attributes restriction =
      .ok true ∧ Describes c registration := by
  obtain ⟨matched, hmatched, hout⟩ := bind_eq_ok.mp h
  cases matched with
  | false => cases hout
  | true =>
    obtain ⟨candidate, hcandidate, hc⟩ := bind_eq_ok.mp hout
    obtain rfl := Option.some.inj (Except.ok.inj hc)
    exact ⟨hmatched, describes_toCandidate hcandidate⟩

theorem matching_of_mem_candidatesOf
    (h : candidatesOf math matchString rank metaRank list nearby entities attributes restriction =
      .ok candidates) (hc : c ∈ candidates) :
    ∃ eid registration, list.get eid = some registration ∧
      matchingWithFilters math matchString (metaRank eid) registration entities attributes
        restriction = .ok true ∧ Describes c registration := by
  obtain ⟨⟨eid, registration⟩, hmem, found, hfound, hc⟩ := (mem_foldlM_append h).mp hc
  rw [Option.mem_toList.mp hc] at hfound
  obtain ⟨hmatch, hdescribes⟩ := candidateOf_eq_some hfound
  exact ⟨eid, registration, GoMap.mem_range.mp hmem, hmatch, hdescribes⟩

theorem mem_candidatesOf_of_matching
    (h : candidatesOf math matchString rank metaRank list nearby entities attributes restriction =
      .ok candidates) {eid : String} {registration : EntityRegistration}
    (hget : list.get eid = some registration)
    (hmatch : matchingWithFilters math matchString (metaRank eid) registration entities attributes
      restriction = .ok true) : ∃ c ∈ candidates, Describes c registration := by
  have hmem : (⟨eid, registration⟩ : GoMap.Entry EntityRegistration) ∈ list.range rank :=
    GoMap.mem_range.mpr hget
  obtain ⟨found, hfound⟩ := foldlM_ends.mp ⟨candidates, h⟩ _ hmem
  have hcandidate := hfound
  rw [candidateOf, hmatch, ok_bind, if_pos rfl] at hfound
  obtain ⟨candidate, -, hout⟩ := bind_eq_ok.mp hfound
  obtain rfl := Except.ok.inj hout
  exact ⟨candidate, (mem_foldlM_append h).mpr ⟨_, hmem, _, hcandidate, by simp⟩,
    (candidateOf_eq_some hcandidate).2⟩

theorem mem_of_mem_closest (h : closest nearby candidates = .ok chosen) (hc : c ∈ chosen) :
    c ∈ candidates := by
  unfold closest at h
  split at h
  · split_ifs at h
    · rw [← Except.ok.inj h] at hc
      exact (List.mem_insertionSort _).mp (List.mem_of_mem_take hc)
    · rwa [Except.ok.inj h]
  · rwa [Except.ok.inj h]

-- what the limit leaves out is no closer than what it keeps
theorem closest_cut (h : closest nearby candidates = .ok chosen) (hc : c ∈ candidates)
    (hcut : c ∉ chosen) :
    ∃ n, nearby = some n ∧ (chosen.length : Int) = n.limit ∧ n.limit < candidates.length ∧
      ∀ kept ∈ chosen, kept.distance ≤ c.distance := by
  unfold closest at h
  split at h
  case h_1 n =>
    split_ifs at h with hlen hneg
    · rw [← Except.ok.inj h] at hcut ⊢
      have hperm := List.perm_insertionSort (fun a b : Candidate => a.distance ≤ b.distance)
        candidates
      have hsorted := List.pairwise_insertionSort
        (fun a b : Candidate => a.distance ≤ b.distance) candidates
      generalize candidates.insertionSort (fun a b => a.distance ≤ b.distance) = sorted at *
      have hlength := hperm.length_eq
      refine ⟨n, rfl, ?_, by omega, fun kept hkept => ?_⟩
      · rw [List.length_take]
        omega
      · rw [← List.take_append_drop n.limit.toNat sorted] at hsorted hperm
        have hdrop : c ∈ sorted.drop n.limit.toNat :=
          (List.mem_append.mp (hperm.mem_iff.mpr hc)).resolve_left hcut
        exact (List.pairwise_append.mp hsorted).2.2 kept hkept c hdrop
    · exact absurd (Except.ok.inj h ▸ hc) hcut
  case h_2 => exact absurd (Except.ok.inj h ▸ hc) hcut

-- the entities are listed under the broker that provides them
theorem mem_slice_entityMapOf {url : String} {e : EntityId} :
    e ∈ (entityMapOf candidates).slice url ↔
      ∃ c ∈ candidates, c.providerURL = url ∧ e = ⟨c.type, false, c.id⟩ := by
  unfold entityMapOf
  induction candidates using List.reverseRecOn with
  | nil => simp
  | append_singleton cs c ih =>
    rw [List.foldl_append, List.foldl_cons, List.foldl_nil, GoMap.slice_set]
    simp only [List.mem_append, List.mem_singleton, or_and_right, exists_or, exists_eq_left, ← ih]
    split_ifs with hurl
    · rw [List.mem_append, List.mem_singleton, hurl]
      simp
    · simp [Ne.symm hurl]

theorem mem_entityMapOf {e : EntityId} :
    (∃ url es, (entityMapOf candidates).get url = some es ∧ e ∈ es) ↔
      ∃ c ∈ candidates, e = ⟨c.type, false, c.id⟩ := by
  have hslice : ∀ url, (∃ es, (entityMapOf candidates).get url = some es ∧ e ∈ es) ↔
      e ∈ (entityMapOf candidates).slice url := by
    intro url
    unfold GoMap.slice
    cases (entityMapOf candidates).get url <;> simp
  simp only [hslice, mem_slice_entityMapOf]
  constructor
  · rintro ⟨url, c, hc, -, he⟩
    exact ⟨c, hc, he⟩
  · rintro ⟨c, hc, he⟩
    exact ⟨c.providerURL, c, hc, rfl, he⟩

end FogFlow.Discovery
