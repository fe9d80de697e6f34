import FogFlow.Broker.Transfer
import FogFlow.Discovery.Query
import FogFlow.Library.Named

namespace FogFlow.Broker.QueryContext

open Ngsi Discovery Loop Named

structure QueryContextRequest where
  entities : List EntityId
  attributes : List String
  restriction : Restriction

structure Network (β : Type) where
  myURL : β → String
  serverAt : String → Option β
  reached : ∀ b, serverAt (myURL b) = some b
  codec : Codec
  entities : β → GoMap PostedElement
  ctxRegistrationList : CtxRegistrationList

-- one run of the matching function at discovery, with the order its loops visit the maps in
structure Matching where
  math : FloatMath
  matchString : MatchString
  rank : String → Nat
  metaRank : String → MetaRank

def Matching.queryEntities (m : Matching) (list : CtxRegistrationList) (req : QueryContextRequest) :
    Except Fault (GoMap (List EntityId)) :=
  Discovery.queryEntities m.math m.matchString m.rank m.metaRank list req.entities req.attributes
    req.restriction

-- the broker takes the reply of a handler that panicked as one without registrations
def handleQueryCtxAvailability (m : Matching) (rank : String → Nat) (list : CtxRegistrationList)
    (req : QueryContextRequest) : List ContextRegistration :=
  match m.queryEntities list req with
  | .ok entityMap => (entityMap.range rank).map (fun e => ⟨e.2, [], [], e.1⟩)
  | .error _ => []

def discoveryEntities (registrationList : List ContextRegistration) : GoMap (List EntityId) :=
  registrationList.foldl (fun result registration =>
    result.set registration.providingApplication
      (result.slice registration.providingApplication ++ registration.entityIdList)) ∅

variable {β : Type}

-- the answer to another broker
def queryFromBroker (entities : GoMap PostedElement) (ids : List EntityId) : List PostedElement :=
  ids.filterMap (fun eid => entities.get eid.id)

def fetchEntities (net : Network β) (ids : List EntityId) (providerURL : String) :
    List ContextElement :=
  match net.serverAt providerURL with
  | some other =>
      (queryFromBroker (net.entities other) ids).map (PostedElement.received net.codec)
  | none => []

-- the answer to an external consumer
def queryContext (net : Network β) (tb : β) (rank : String → Nat)
    (registrationList : List ContextRegistration) (req : QueryContextRequest) :
    List ContextElement :=
  ((discoveryEntities registrationList).range rank).flatMap (fun e =>
    if e.1 = net.myURL tb then
      e.2.filterMap (fun eid =>
        ((net.entities tb).get eid.id).map (PostedElement.selected req.attributes))
    else fetchEntities net e.2 e.1)

def unplaced (registration : EntityRegistration) : EntityRegistration :=
  { registration with providingApplication := "" }

-- the brokers hold the content between them, and discovery names the holder of each entity
structure Placed (net : Network β) (content : GoMap PostedElement)
    (registered : CtxRegistrationList) : Prop where
  held : ∀ eid p, content.get eid = some p ↔ ∃ b, (net.entities b).get eid = some p
  named : ∀ b eid p, (net.entities b).get eid = some p →
    ∃ registration, net.ctxRegistrationList.get eid = some registration ∧
      registration.providingApplication = net.myURL b
  registered : net.ctxRegistrationList.mapVals unplaced = registered
  stored : ∀ eid p, content.get eid = some p → p.eid = eid
  recorded : ∀ eid registration, net.ctxRegistrationList.get eid = some registration →
    registration.id = eid

-- the answer that speaks of no broker: the matched entities, with the selected attributes
def expected (m : Matching) (rank : String → Nat) (content : GoMap PostedElement)
    (registered : CtxRegistrationList) (req : QueryContextRequest) : List ContextElement :=
  match m.queryEntities registered req with
  | .ok entityMap => (entityMap.range rank).flatMap (fun e =>
      e.2.filterMap (fun eid =>
        (content.get eid.id).map (PostedElement.selected req.attributes)))
  | .error _ => []

def Matched (m : Matching) (registered : CtxRegistrationList) (req : QueryContextRequest)
    (eid : String) : Prop :=
  ∃ entityMap, m.queryEntities registered req = .ok entityMap ∧
    ∃ url ids, entityMap.get url = some ids ∧ ∃ entity ∈ ids, entity.id = eid

-- the element is sent whole and under its entityId, so neither may make a difference
structure Whole (codec : Codec) (attributes : List String) (p : PostedElement) : Prop where
  selection : (p.selected attributes).attributes = p.element.attributes
  values : p.element.attributes.map codec.attribute = p.element.attributes
  metadata : p.isOrion = false → p.element.metadata.map codec.metadata = p.element.metadata
  orion : p.isOrion = true → p.element.entity = ⟨"", false, ""⟩ ∧ p.element.metadata = []

theorem named_selected (attributes : List String) (attrs : List ContextAttribute) (n : String) :
    named ContextAttribute.name n (attributes.flatMap (fun requiredAttrName =>
      attrs.filter (fun attr => attr.name == requiredAttrName))) =
      (List.replicate (attributes.count n) (named ContextAttribute.name n attrs)).flatten := by
  induction attributes with
  | nil => rfl
  | cons a attributes ih =>
    rw [List.flatMap_cons, named_append, ih, List.count_cons]
    by_cases ha : a = n
    · subst ha
      simp [named, List.replicate_succ]
    · have hnone : named ContextAttribute.name n (attrs.filter (fun attr => attr.name == a)) =
          [] := by
        simp [named, List.filter_filter, List.filter_eq_nil_iff]
        intro attr _ hn hattr
        exact ha (hattr ▸ hn)
      simp [hnone, ha]

theorem length_named_of_names {xs ys : List ContextAttribute}
    (h : xs.map ContextAttribute.name = ys.map ContextAttribute.name) (n : String) :
    (named ContextAttribute.name n xs).length = (named ContextAttribute.name n ys).length := by
  have hcount := congrArg (fun names => (names.filter (· == n)).length) h
  rw [List.filter_map, List.filter_map, List.length_map, List.length_map] at hcount
  exact hcount

-- a selection that leaves the sequence of the names as it is leaves the attributes as they are
theorem selection_of_names {attributes : List String} {p : PostedElement}
    (h : (p.selected attributes).attributes.map ContextAttribute.name =
      p.element.attributes.map ContextAttribute.name) :
    (p.selected attributes).attributes = p.element.attributes := by
  refine eq_of_named h (fun n => ?_)
  have hlength := length_named_of_names h n
  unfold PostedElement.selected ContextElement.cloneWithSelectedAttributes at hlength ⊢
  dsimp only at hlength ⊢
  split_ifs at hlength ⊢
  · rfl
  · rw [named_selected] at hlength ⊢
    generalize named ContextAttribute.name n p.element.attributes = found at hlength ⊢
    rw [List.length_flatten, List.map_replicate, List.sum_replicate_nat] at hlength
    rcases Nat.eq_zero_or_pos found.length with hnone | hsome
    · rw [List.length_eq_zero_iff.mp hnone]
      simp
    · rw [Nat.eq_of_mul_eq_mul_right hsome (hlength.trans (Nat.one_mul _).symm)]
      simp

theorem received_eq_selected_iff {codec : Codec} {attributes : List String} {p : PostedElement} :
    p.received codec = p.selected attributes ↔ Whole codec attributes p := by
  have hattrs : (p.received codec).attributes = p.element.attributes.map codec.attribute := by
    unfold PostedElement.received PostedElement.transferred
    split_ifs <;> rfl
  have hnames : (p.received codec).attributes.map ContextAttribute.name =
      p.element.attributes.map ContextAttribute.name := by
    rw [hattrs, List.map_map]
    rfl
  constructor
  · intro h
    rw [h] at hattrs hnames
    have hselection := selection_of_names hnames
    refine ⟨hselection, hattrs.symm.trans hselection, fun hform => ?_, fun horion => ?_⟩
    · have hmetadata := congrArg ContextElement.metadata h
      simp only [PostedElement.received, PostedElement.transferred, hform] at hmetadata
      exact hmetadata
    · have hentity := congrArg ContextElement.entity h
      have hmetadata := congrArg ContextElement.metadata h
      simp only [PostedElement.received, PostedElement.transferred, if_pos horion] at hentity hmetadata
      exact ⟨hentity.symm, hmetadata.symm⟩
  · rintro ⟨hselection, hvalues, hmetadata, horion⟩
    have hselected : p.selected attributes =
        ⟨p.element.entity, "", p.element.attributes, p.element.metadata⟩ := by
      rw [← hselection]
      rfl
    rw [hselected, PostedElement.received, PostedElement.transferred]
    split_ifs with hform
    · obtain ⟨hentity, hnone⟩ := horion hform
      rw [hvalues, hentity, hnone]
    · rw [hvalues, hmetadata (Bool.eq_false_iff.mpr hform)]

def Matching.candidates (m : Matching) (list : CtxRegistrationList) (req : QueryContextRequest) :
    Except Fault (List Candidate) := do
  let nearby ← getNearbyFilter req.restriction
  let candidates ← candidatesOf m.math m.matchString m.rank m.metaRank list nearby req.entities
    req.attributes req.restriction
  closest nearby candidates

def anywhere (c : Candidate) : Candidate := { c with providerURL := "" }

variable {m : Matching} {list : CtxRegistrationList} {req : QueryContextRequest}
  {nearby : Option NearBy}

theorem queryEntities_eq : m.queryEntities list req = (m.candidates list req).map entityMapOf := by
  unfold Matching.queryEntities Discovery.queryEntities Matching.candidates
  cases getNearbyFilter req.restriction with
  | error e => rfl
  | ok nearby =>
    simp only [ok_bind]
    cases candidatesOf m.math m.matchString m.rank m.metaRank list nearby req.entities
      req.attributes req.restriction with
    | error e => rfl
    | ok candidates =>
      simp only [ok_bind]
      cases closest nearby candidates <;> rfl

theorem toCandidate_unplaced (math : FloatMath) (registration : EntityRegistration) :
    toCandidate math nearby (unplaced registration) =
      (toCandidate math nearby registration).map anywhere := by
  cases nearby with
  | none => rfl
  | some n =>
    have hlocation : (unplaced registration).getLocation = registration.getLocation := rfl
    simp only [toCandidate, hlocation]
    cases registration.getLocation <;> rfl

theorem candidateOf_unplaced (metaRank : MetaRank) (registration : EntityRegistration) :
    candidateOf m.math m.matchString metaRank nearby req.entities req.attributes req.restriction
        (unplaced registration) =
      (candidateOf m.math m.matchString metaRank nearby req.entities req.attributes
        req.restriction registration).map (Option.map anywhere) := by
  have hmatch : matchingWithFilters m.math m.matchString metaRank (unplaced registration)
      req.entities req.attributes req.restriction = matchingWithFilters m.math m.matchString
        metaRank registration req.entities req.attributes req.restriction := rfl
  rw [candidateOf, candidateOf, hmatch, toCandidate_unplaced]
  cases matchingWithFilters m.math m.matchString metaRank registration req.entities
    req.attributes req.restriction with
  | error e => rfl
  | ok matched =>
    cases matched with
    | false => rfl
    | true => cases toCandidate m.math nearby registration <;> rfl

theorem candidatesOf_unplaced :
    candidatesOf m.math m.matchString m.rank m.metaRank (list.mapVals unplaced) nearby req.entities
        req.attributes req.restriction =
      (candidatesOf m.math m.matchString m.rank m.metaRank list nearby req.entities req.attributes
        req.restriction).map (List.map anywhere) := by
  have hrange : (list.mapVals unplaced).range m.rank =
      (list.range m.rank).map (fun e => ⟨e.1, unplaced e.2⟩) :=
    (List.map_insertionSort (fun a b : GoMap.Entry EntityRegistration => m.rank a.1 ≤ m.rank b.1)
      (fun a b : GoMap.Entry EntityRegistration => m.rank a.1 ≤ m.rank b.1)
      (fun e => ⟨e.1, unplaced e.2⟩) list.entries (fun _ _ _ _ => Iff.rfl)).symm
  have hloop (entries : List (GoMap.Entry EntityRegistration)) (found : List Candidate) :
      (entries.map (fun e => (⟨e.1, unplaced e.2⟩ : GoMap.Entry EntityRegistration))).foldlM
        (fun candidates (e : GoMap.Entry EntityRegistration) => do
          let candidate ← candidateOf m.math m.matchString (m.metaRank e.1) nearby req.entities
            req.attributes req.restriction e.2
          Except.ok (candidates ++ candidate.toList)) (found.map anywhere) =
      (entries.foldlM (fun candidates (e : GoMap.Entry EntityRegistration) => do
          let candidate ← candidateOf m.math m.matchString (m.metaRank e.1) nearby req.entities
            req.attributes req.restriction e.2
          Except.ok (candidates ++ candidate.toList)) found).map (List.map anywhere) := by
    induction entries generalizing found with
    | nil => rfl
    | cons e entries ih =>
      rw [List.map_cons, List.foldlM_cons, List.foldlM_cons]
      dsimp only
      rw [candidateOf_unplaced]
      cases candidateOf m.math m.matchString (m.metaRank e.1) nearby req.entities req.attributes
        req.restriction e.2 with
      | error e => rfl
      | ok candidate =>
        have hnext := ih (found ++ candidate.toList)
        rw [List.map_append] at hnext
        cases candidate <;> exact hnext
  unfold candidatesOf
  rw [hrange]
  exact hloop (list.range m.rank) []

theorem closest_anywhere (candidates : List Candidate) :
    closest nearby (candidates.map anywhere) =
      (closest nearby candidates).map (List.map anywhere) := by
  cases nearby with
  | none => rfl
  | some n =>
    have hsort : (candidates.map anywhere).insertionSort (fun a b => a.distance ≤ b.distance) =
        (candidates.insertionSort (fun a b => a.distance ≤ b.distance)).map anywhere :=
        (List.map_insertionSort (fun a b : Candidate => a.distance ≤ b.distance)
        (fun a b => a.distance ≤ b.distance) anywhere candidates
        (fun _ _ _ _ => Iff.rfl)).symm
    simp only [closest, List.length_map, hsort, ← List.map_take]
    split_ifs <;> rfl

theorem candidates_unplaced : m.candidates (list.mapVals unplaced) req =
    (m.candidates list req).map (List.map anywhere) := by
  unfold Matching.candidates
  cases getNearbyFilter req.restriction with
  | error e => rfl
  | ok nearby =>
    simp only [ok_bind, candidatesOf_unplaced]
    cases candidatesOf m.math m.matchString m.rank m.metaRank list nearby req.entities
      req.attributes req.restriction with
    | error e => rfl
    | ok candidates => exact closest_anywhere candidates

variable {net : Network β} {tb : β} {content : GoMap PostedElement}
  {registered : CtxRegistrationList} {cs : List Candidate} {c : Candidate} {rank : String → Nat}

theorem registered_of_mem (h : m.candidates list req = .ok cs) (hc : c ∈ cs) :
    ∃ eid registration, list.get eid = some registration ∧ c.id = registration.id ∧
      c.providerURL = registration.providingApplication := by
  obtain ⟨nearby, -, hrest⟩ := bind_eq_ok.mp h
  obtain ⟨found, hfound, hclosest⟩ := bind_eq_ok.mp hrest
  obtain ⟨⟨eid, registration⟩, hmem, candidate, hcandidate, hin⟩ :=
    (mem_foldlM_append hfound).mp (mem_of_mem_closest hclosest hc)
  rw [Option.mem_toList.mp hin] at hcandidate
  obtain ⟨matched, -, hout⟩ := bind_eq_ok.mp hcandidate
  cases matched with
  | false => cases hout
  | true =>
    obtain ⟨made, hmade, hc⟩ := bind_eq_ok.mp hout
    obtain rfl := Option.some.inj (Except.ok.inj hc)
    have hdescribes := describes_toCandidate hmade
    exact ⟨eid, registration, GoMap.mem_range.mp hmem, hdescribes.id, hdescribes.provider⟩

def provided (net : Network β) (tb : β) (attributes : List String) (url : String)
    (eid : EntityId) : List ContextElement :=
  if url = net.myURL tb then
    (((net.entities tb).get eid.id).map (PostedElement.selected attributes)).toList
  else match net.serverAt url with
    | some other => (((net.entities other).get eid.id).map (PostedElement.received net.codec)).toList
    | none => []

theorem queryContext_eq (rank : String → Nat) (registrationList : List ContextRegistration) :
    queryContext net tb rank registrationList req =
      ((discoveryEntities registrationList).range rank).flatMap (fun e =>
        e.2.flatMap (provided net tb req.attributes e.1)) := by
  unfold queryContext
  congr 1
  funext e
  split_ifs with hown
  · have hlocal : provided net tb req.attributes e.1 = fun eid =>
        (((net.entities tb).get eid.id).map (PostedElement.selected req.attributes)).toList := by
      funext eid
      rw [provided, if_pos hown]
    rw [hlocal, List.filterMap_eq_flatMap_toList]
  · unfold fetchEntities queryFromBroker
    split
    case h_1 other hother =>
      have hremote : provided net tb req.attributes e.1 = fun eid =>
          (((net.entities other).get eid.id).map (PostedElement.received net.codec)).toList := by
        funext eid
        rw [provided, if_neg hown, hother]
      rw [hremote, List.map_filterMap, List.filterMap_eq_flatMap_toList]
    case h_2 hnone =>
      have hnobody : provided net tb req.attributes e.1 = fun _ => [] := by
        funext eid
        rw [provided, if_neg hown, hnone]
      rw [hnobody]
      simp

theorem perm_queryContext (h : m.candidates list req = .ok cs) (respRank rank : String → Nat) :
    (queryContext net tb rank (handleQueryCtxAvailability m respRank list req) req).Perm
      (cs.flatMap (fun c => provided net tb req.attributes c.providerURL ⟨c.type, false, c.id⟩)) := by
  rw [queryContext_eq]
  refine (GoMap.perm_flatMap_collect ContextRegistration.providingApplication
    ContextRegistration.entityIdList (provided net tb req.attributes) rank _).trans ?_
  rw [handleQueryCtxAvailability, queryEntities_eq, h]
  dsimp only [Except.map]
  rw [List.flatMap_map]
  refine (GoMap.perm_flatMap_collect Candidate.providerURL
    (fun c => [(⟨c.type, false, c.id⟩ : EntityId)]) (provided net tb req.attributes) respRank
    cs).trans ?_
  simp only [List.flatMap_singleton]
  exact .refl _

theorem perm_expected (h : m.candidates list req = .ok cs) (rank : String → Nat) :
    (expected m rank content (list.mapVals unplaced) req).Perm
      (cs.flatMap (fun c =>
        ((content.get c.id).map (PostedElement.selected req.attributes)).toList)) := by
  rw [expected, queryEntities_eq, candidates_unplaced, h]
  dsimp only [Except.map]
  simp only [List.filterMap_eq_flatMap_toList]
  refine (GoMap.perm_flatMap_collect Candidate.providerURL
    (fun c => [(⟨c.type, false, c.id⟩ : EntityId)])
    (fun _ eid => ((content.get eid.id).map (PostedElement.selected req.attributes)).toList) rank
    (cs.map anywhere)).trans ?_
  rw [List.flatMap_map]
  simp only [List.flatMap_singleton]
  exact .refl _

theorem Placed.url_of_held (hp : Placed net content registered) {b : β} {eid : String}
    {p : PostedElement} {registration : EntityRegistration}
    (hget : net.ctxRegistrationList.get eid = some registration)
    (h : (net.entities b).get eid = some p) : registration.providingApplication = net.myURL b := by
  obtain ⟨r, hr, hurl⟩ := hp.named b eid p h
  rw [hget] at hr
  rw [Option.some.inj hr, hurl]

-- the broker that answers at the registered URL has the element if any broker has it
theorem Placed.content_eq (hp : Placed net content registered) {eid : String}
    {registration : EntityRegistration}
    (hget : net.ctxRegistrationList.get eid = some registration) :
    content.get eid =
      (net.serverAt registration.providingApplication).bind (fun b => (net.entities b).get eid) := by
  apply Option.ext
  intro p
  rw [hp.held, Option.bind_eq_some_iff]
  refine exists_congr (fun b => ?_)
  constructor
  · intro h
    rw [hp.url_of_held hget h]
    exact ⟨net.reached b, h⟩
  · exact fun h => h.2

def shown (net : Network β) (tb : β) (attributes : List String) (c : Candidate)
    (p : PostedElement) : ContextElement :=
  if c.providerURL = net.myURL tb then p.selected attributes else p.received net.codec

theorem Placed.provided_eq (hp : Placed net content registered)
    (h : m.candidates net.ctxRegistrationList req = .ok cs) (hc : c ∈ cs) :
    provided net tb req.attributes c.providerURL ⟨c.type, false, c.id⟩ =
      ((content.get c.id).map (shown net tb req.attributes c)).toList := by
  obtain ⟨eid, registration, hget, hid, hurl⟩ := registered_of_mem h hc
  rw [hp.recorded eid registration hget] at hid
  rw [hid, hp.content_eq hget, hurl]
  have hshown : shown net tb req.attributes c = fun p =>
      if registration.providingApplication = net.myURL tb then p.selected req.attributes
      else p.received net.codec := by
    rw [← hurl]
    rfl
  rw [hshown]
  unfold provided
  split_ifs with hown
  · rw [hown, net.reached tb]
    rfl
  · cases net.serverAt registration.providingApplication <;> rfl

-- a candidate that another broker holds
theorem Placed.elsewhere_iff (hp : Placed net content registered)
    (h : m.candidates net.ctxRegistrationList req = .ok cs) (hc : c ∈ cs) {p : PostedElement}
    (hcontent : content.get c.id = some p) :
    c.providerURL ≠ net.myURL tb ↔ (net.entities tb).get c.id = none := by
  obtain ⟨eid, registration, hget, hid, hurl⟩ := registered_of_mem h hc
  rw [hp.recorded eid registration hget] at hid
  rw [hid] at hcontent ⊢
  rw [hurl]
  constructor
  · intro hne
    cases htb : (net.entities tb).get eid with
    | none => rfl
    | some q => exact absurd (hp.url_of_held hget htb) hne
  · intro hnone hown
    rw [hp.content_eq hget, hown, net.reached tb] at hcontent
    rw [Option.bind_some, hnone] at hcontent
    cases hcontent

theorem matched_iff (h : m.candidates list req = .ok cs) {eid : String} :
    Matched m (list.mapVals unplaced) req eid ↔ ∃ c ∈ cs, c.id = eid := by
  unfold Matched
  rw [queryEntities_eq, candidates_unplaced, h]
  constructor
  · rintro ⟨entityMap, hmap, url, ids, hids, entity, hentity, rfl⟩
    obtain rfl := Except.ok.inj hmap
    obtain ⟨c, hc, rfl⟩ := mem_entityMapOf.mp ⟨url, ids, hids, hentity⟩
    obtain ⟨c', hc', rfl⟩ := List.mem_map.mp hc
    exact ⟨c', hc', rfl⟩
  · rintro ⟨c, hc, rfl⟩
    obtain ⟨url, ids, hids, hentity⟩ :=
      mem_entityMapOf.mpr ⟨anywhere c, List.mem_map_of_mem hc, rfl⟩
    exact ⟨_, rfl, url, ids, hids, _, hentity, rfl⟩

theorem entity_received (codec : Codec) (p : PostedElement) :
    (p.received codec).entity.id = p.eid ∨ (p.received codec).entity.id = "" := by
  unfold PostedElement.received PostedElement.transferred
  split_ifs
  · exact .inr rfl
  · exact .inl rfl

-- the ids tell the elements apart, so no element can stand in for another one
theorem perm_answers_iff (f g : Candidate → PostedElement → ContextElement)
    (hf : ∀ c p, (f c p).entity.id = p.eid ∨ (f c p).entity.id = "")
    (hg : ∀ c p, (g c p).entity.id = p.eid)
    (hsame : ∀ c ∈ cs, ∀ c' ∈ cs, c.id = c'.id → f c = f c' ∧ g c = g c')
    (hstored : ∀ eid p, content.get eid = some p → p.eid = eid) :
    (cs.flatMap (fun c => ((content.get c.id).map (f c)).toList)).Perm
        (cs.flatMap (fun c => ((content.get c.id).map (g c)).toList)) ↔
      ∀ c ∈ cs, ∀ p, content.get c.id = some p → f c p = g c p := by
  have hmem (k : Candidate → PostedElement → ContextElement) (e : ContextElement) :
      e ∈ cs.flatMap (fun c => ((content.get c.id).map (k c)).toList) ↔
        ∃ c ∈ cs, ∃ p, content.get c.id = some p ∧ k c p = e := by
    simp [List.mem_flatMap]
  constructor
  · intro hperm c hc p hp
    have hid := hstored _ _ hp
    by_cases hempty : c.id = ""
    · obtain ⟨c', hc', p', hp', heq⟩ := (hmem g _).mp (hperm.mem_iff.mp ((hmem f _).mpr
        ⟨c, hc, p, hp, rfl⟩))
      have hid' := hstored _ _ hp'
      have hsameId : c'.id = c.id := by
        rw [← hid', ← hg c' p', heq]
        rcases hf c p with h | h
        · rw [h, hid]
        · rw [h, hempty]
      rw [hsameId, hp] at hp'
      rw [← heq, (hsame c' hc' c hc hsameId).2, Option.some.inj hp']
    · obtain ⟨c', hc', p', hp', heq⟩ := (hmem f _).mp (hperm.mem_iff.mpr ((hmem g _).mpr
        ⟨c, hc, p, hp, rfl⟩))
      have hid' := hstored _ _ hp'
      have hsameId : c'.id = c.id := by
        have hentity := congrArg (fun e => e.entity.id) heq
        rw [hg c p, hid] at hentity
        rcases hf c' p' with h | h
        · rw [← hid', ← h, hentity]
        · exact absurd (hentity.symm.trans h) hempty
      rw [hsameId, hp] at hp'
      rw [← heq, (hsame c' hc' c hc hsameId).1, Option.some.inj hp']
  · intro h
    refine List.Perm.of_eq (List.flatMap_congr (fun c hc => ?_))
    cases hget : content.get c.id with
    | none => rfl
    | some p => rw [Option.map_some, Option.map_some, h c hc p hget]

theorem entity_shown (net : Network β) (tb : β) (attributes : List String) (c : Candidate)
    (p : PostedElement) : (shown net tb attributes c p).entity.id = p.eid ∨
      (shown net tb attributes c p).entity.id = "" := by
  unfold shown
  split_ifs
  · exact .inl rfl
  · exact entity_received net.codec p

theorem Placed.shown_congr (hp : Placed net content registered)
    (h : m.candidates net.ctxRegistrationList req = .ok cs) {c' : Candidate} (hc : c ∈ cs)
    (hc' : c' ∈ cs) (hid : c.id = c'.id) (attributes : List String) :
    shown net tb attributes c = shown net tb attributes c' := by
  obtain ⟨eid, r, hget, hcid, hurl⟩ := registered_of_mem h hc
  obtain ⟨eid', r', hget', hcid', hurl'⟩ := registered_of_mem h hc'
  rw [hp.recorded eid r hget] at hcid
  rw [hp.recorded eid' r' hget'] at hcid'
  rw [← hcid, hid, hcid', hget'] at hget
  have hsame : c.providerURL = c'.providerURL := by
    rw [hurl, hurl', Option.some.inj hget]
  funext p
  rw [shown, shown, hsame]

theorem shown_eq_selected_iff {attributes : List String} {p : PostedElement} :
    shown net tb attributes c p = p.selected attributes ↔
      (c.providerURL ≠ net.myURL tb → Whole net.codec attributes p) := by
  unfold shown
  split_ifs with hown
  · exact iff_of_true rfl (fun hne => absurd hown hne)
  · rw [received_eq_selected_iff]
    exact ⟨fun h _ => h, fun h => h hown⟩

theorem answer_located_iff (hp : Placed net content registered)
    (respRank rank rank' : String → Nat) :
    (queryContext net tb rank (handleQueryCtxAvailability m respRank net.ctxRegistrationList req)
        req).Perm (expected m rank' content registered req) ↔
      ∀ eid p, Matched m registered req eid → content.get eid = some p →
        (net.entities tb).get eid = none → Whole net.codec req.attributes p := by
  rw [← hp.registered]
  cases h : m.candidates net.ctxRegistrationList req with
  | error e =>
    have hmatched : ∀ eid, ¬ Matched m (net.ctxRegistrationList.mapVals unplaced) req eid := by
      rintro eid ⟨entityMap, hmap, -⟩
      rw [queryEntities_eq, candidates_unplaced, h] at hmap
      cases hmap
    refine iff_of_true ?_ (fun eid p hm => absurd hm (hmatched eid))
    rw [handleQueryCtxAvailability, expected, queryEntities_eq, queryEntities_eq,
      candidates_unplaced, h]
    exact .nil
  | ok cs =>
    have hanswer : (queryContext net tb rank
        (handleQueryCtxAvailability m respRank net.ctxRegistrationList req) req).Perm _ :=
      perm_queryContext h respRank rank
    have hexpected : (expected m rank' content (net.ctxRegistrationList.mapVals unplaced)
        req).Perm _ := perm_expected h rank'
    rw [List.flatMap_congr (fun c hc => hp.provided_eq h hc)] at hanswer
    have hanswers := perm_answers_iff (shown net tb req.attributes)
      (fun _ p => p.selected req.attributes) (entity_shown net tb req.attributes) (fun _ _ => rfl)
      (fun c hc c' hc' hid => ⟨hp.shown_congr h hc hc' hid req.attributes, rfl⟩) hp.stored
    constructor
    · intro hperm eid p hmatched hcontent helsewhere
      obtain ⟨c, hc, rfl⟩ := (matched_iff h).mp hmatched
      have heq := hanswers.mp ((hanswer.symm.trans hperm).trans hexpected) c hc p hcontent
      exact shown_eq_selected_iff.mp heq ((hp.elsewhere_iff h hc hcontent).mpr helsewhere)
    · intro hwhole
      refine hanswer.trans (.trans (hanswers.mpr (fun c hc p hcontent => ?_)) hexpected.symm)
      refine shown_eq_selected_iff.mpr (fun hne => ?_)
      exact hwhole c.id p ((matched_iff h).mpr ⟨c, hc, rfl⟩) hcontent
        ((hp.elsewhere_iff h hc hcontent).mp hne)

def exampleMatching : Matching := ⟨exampleMath, fun _ _ => false, fun _ => 0, fun _ _ _ _ => 0⟩

def roomElement : PostedElement :=
  ⟨"", ⟨⟨"Room", false, "room1"⟩, "", [⟨"temperature", "string", .string "20", []⟩,
    ⟨"humidity", "string", .string "40", []⟩], []⟩⟩

def roomContent : GoMap PostedElement := (∅ : GoMap PostedElement).set "room1" roomElement

def roomRegistered (providingApplication : String) : CtxRegistrationList :=
  (∅ : CtxRegistrationList).set "room1"
    { id := "room1", type := "Room"
      attributesList := setAttributes ∅ [⟨"temperature", "string", false⟩,
        ⟨"humidity", "string", false⟩]
      metadataList := ∅, providingApplication }

def brokerURL (b : Bool) : String := if b then "http://b:8070/ngsi10" else "http://a:8070/ngsi10"

def roomAt (holder : Bool) : Network Bool where
  myURL := brokerURL
  serverAt := fun url => [false, true].find? (fun b => brokerURL b == url)
  reached := by decide
  codec := ⟨fun _ value => value, id⟩
  entities := fun b => if b = holder then roomContent else ∅
  ctxRegistrationList := roomRegistered (brokerURL holder)

theorem placed_roomAt (holder : Bool) :
    Placed (roomAt holder) roomContent (roomRegistered "") where
  held := by
    intro eid p
    constructor
    · exact fun h => ⟨holder, by simpa [roomAt] using h⟩
    · rintro ⟨b, h⟩
      simp only [roomAt] at h
      split_ifs at h
      · exact h
      · cases h
  named := by
    intro b eid p h
    simp only [roomAt] at h
    split_ifs at h with hb
    · rw [roomContent, GoMap.get_set] at h
      split_ifs at h with heid
      · subst heid hb
        exact ⟨_, GoMap.get_set_self _ _ _, rfl⟩
      · cases h
    · cases h
  registered := rfl
  stored := by
    intro eid p h
    rw [roomContent, GoMap.get_set] at h
    split_ifs at h with heid
    · rw [← Option.some.inj h, heid]
      rfl
    · cases h
  recorded := by
    intro eid registration h
    simp only [roomAt, roomRegistered, GoMap.get_set] at h
    split_ifs at h with heid
    · rw [← Option.some.inj h, heid]
    · cases h

def askRoom (holder asked : Bool) (attributes : List String) : List ContextElement :=
  queryContext (roomAt holder) asked (fun _ => 0)
    (handleQueryCtxAvailability exampleMatching (fun _ => 0) (roomAt holder).ctxRegistrationList
      ⟨[⟨"Room", false, "room1"⟩], attributes, .zero⟩)
    ⟨[⟨"Room", false, "room1"⟩], attributes, .zero⟩

theorem answer_depends_on_broker :
    askRoom true true ["temperature"] = [roomElement.selected ["temperature"]] ∧
      askRoom true false ["temperature"] = [roomElement.element] ∧
      ¬ (askRoom true true ["temperature"]).Perm (askRoom true false ["temperature"]) := by
  have hlocal : askRoom true true ["temperature"] = [roomElement.selected ["temperature"]] := rfl
  have hremote : askRoom true false ["temperature"] = [roomElement.element] := rfl
  refine ⟨hlocal, hremote, fun hperm => ?_⟩
  rw [hlocal, hremote] at hperm
  have hattributes := congrArg ContextElement.attributes (List.singleton_perm_singleton.mp hperm)
  cases hattributes

theorem whole_room_located : (askRoom true false []).Perm
    (expected exampleMatching (fun _ => 0) roomContent (roomRegistered "")
      ⟨[⟨"Room", false, "room1"⟩], [], .zero⟩) := by
  refine (answer_located_iff (placed_roomAt true) _ _ _).mpr (fun eid p _ hget _ => ?_)
  rw [roomContent, GoMap.get_set] at hget
  split_ifs at hget
  · rw [← Option.some.inj hget]
    exact ⟨rfl, rfl, fun _ => rfl, fun h => by cases h⟩
  · cases hget

end FogFlow.Broker.QueryContext
