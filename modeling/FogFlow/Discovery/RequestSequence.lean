import FogFlow.Discovery.Repository

namespace FogFlow.Discovery.RequestSequence

open Ngsi

abbrev Request := EntityId × ContextRegistration

-- the loops of every call over the attribute table have an order of their own
def updateAll (attrRank : Nat → String → Nat) (list : CtxRegistrationList)
    (requests : List Request) : CtxRegistrationList :=
  requests.zipIdx.foldl (fun list call =>
    updateRegistrationInMemory (attrRank call.2) list call.1.1 call.1.2) list

def requestsFor (eid : String) (requests : List Request) : List Request :=
  requests.filter (fun request => request.1.id == eid)

def lastNonEmpty (old : String) (texts : List String) : String :=
  ((texts.filter (fun text => text != "")).getLast?).getD old

-- what the requests for an entity make of the registration that stood there before
structure Follows (before : Option EntityRegistration) (requests : List Request)
    (registration : EntityRegistration) : Prop where
  attributes : ∀ last, requests.getLast? = some last → ∀ n, registration.attributesList.get n =
    (Named.named ContextRegistrationAttribute.name n last.2.contextRegistrationAttributes).getLast?
  metadata : ∀ n, registration.metadataList.get n =
    (Named.named ContextMetadata.name n
        (requests.flatMap (fun request => request.2.metadata))).getLast?.or
      (before.bind (fun registration => registration.metadataList.get n))
  type : registration.type = lastNonEmpty ((before.map EntityRegistration.type).getD "")
    (requests.map (fun request => request.1.type))
  providingApplication : registration.providingApplication =
    lastNonEmpty ((before.map EntityRegistration.providingApplication).getD "")
      (requests.map (fun request => request.2.providingApplication))

variable {attrRank : String → Nat} {before : Option EntityRegistration} {requests : List Request}
  {registration : EntityRegistration} {request : Request} {list : CtxRegistrationList}
  {eid : String}

theorem lastNonEmpty_concat (old : String) (texts : List String) (text : String) :
    lastNonEmpty old (texts ++ [text]) =
      if text ≠ "" then text else lastNonEmpty old texts := by
  unfold lastNonEmpty
  rw [List.filter_append]
  by_cases h : text = ""
  · simp [h]
  · simp [h]

theorem requestsFor_concat :
    requestsFor eid (requests ++ [request]) =
      if eid = request.1.id then requestsFor eid requests ++ [request]
      else requestsFor eid requests := by
  unfold requestsFor
  rw [List.filter_append]
  by_cases h : eid = request.1.id
  · simp [h]
  · simp [h, Ne.symm h]

theorem updateAll_concat (rank : Nat → String → Nat) :
    updateAll rank list (requests ++ [request]) =
      updateRegistrationInMemory (rank requests.length) (updateAll rank list requests) request.1
        request.2 := by
  simp [updateAll, List.zipIdx_append]

-- the new names are set first, so every name that is kept has its new attribute
theorem attributes_updateExisting (hfiled : Filed registration.attributesList) (n : String) :
    (updateExisting attrRank registration request.1 request.2).attributesList.get n =
      (Named.named ContextRegistrationAttribute.name n
        request.2.contextRegistrationAttributes).getLast? := by
  have hset := filed_setAttributes hfiled request.2.contextRegistrationAttributes
  have hnames : (updateExisting attrRank registration request.1 request.2).attributesList.get n ≠
      none ↔ ∃ a ∈ request.2.contextRegistrationAttributes, a.name = n :=
    names_updateExisting hfiled n
  cases hlast : (Named.named ContextRegistrationAttribute.name n
      request.2.contextRegistrationAttributes).getLast? with
  | none =>
    by_contra hne
    obtain ⟨a, ha⟩ := hnames.mp hne
    have hmem := Named.mem_named.mpr ha
    rw [List.getLast?_eq_none_iff.mp hlast] at hmem
    cases hmem
  | some last =>
    have hmem := Named.mem_named.mp (List.mem_of_getLast? hlast)
    obtain ⟨a, ha⟩ := Option.ne_none_iff_exists'.mp (hnames.mpr ⟨last, hmem⟩)
    have hget := ((get_deleteOldAttributes hset).mp ha).1
    rw [get_setAttributes, hlast] at hget
    rw [ha, ← hget]
    rfl

theorem follows_first : Follows none [request] (entityRegistration request.1 request.2) := by
  refine ⟨fun last hlast n => ?_, fun n => ?_, ?_, ?_⟩
  · obtain rfl : request = last := by simpa using hlast
    simp [entityRegistration, get_setAttributes]
  · simp [entityRegistration, get_setMetadata]
  · by_cases h : request.1.type = "" <;> simp [entityRegistration, lastNonEmpty, h]
  · by_cases h : request.2.providingApplication = "" <;>
      simp [entityRegistration, lastNonEmpty, h]

theorem Follows.next (h : Follows before requests registration)
    (hfiled : Filed registration.attributesList) :
    Follows before (requests ++ [request])
      (updateExisting attrRank registration request.1 request.2) := by
  refine ⟨fun last hlast n => ?_, fun n => ?_, ?_, ?_⟩
  · obtain rfl : request = last := by simpa using hlast
    exact attributes_updateExisting hfiled n
  · rw [updateExisting, get_setMetadata, h.metadata, List.flatMap_append, List.flatMap_singleton,
      Named.named_append, List.getLast?_append, Option.or_assoc]
  · rw [List.map_append, List.map_singleton, lastNonEmpty_concat, ← h.type]
    rfl
  · rw [List.map_append, List.map_singleton, lastNonEmpty_concat, ← h.providingApplication]
    rfl

theorem follows_nil (registration : EntityRegistration) :
    Follows (some registration) [] registration :=
  ⟨by simp, fun _ => rfl, rfl, rfl⟩

theorem get_updateAll_of_none (rank : Nat → String → Nat) (h : requestsFor eid requests = []) :
    (updateAll rank list requests).get eid = list.get eid := by
  induction requests using List.reverseRecOn with
  | nil => rfl
  | append_singleton requests request ih =>
    rw [requestsFor_concat] at h
    split_ifs at h with hid
    · simp at h
    · rw [updateAll_concat, get_updateRegistrationInMemory, if_neg hid, ih h]

-- the invariant of the run also says that the attributes are filed under their own names
theorem follows_updateAll (rank : Nat → String → Nat)
    (hfiled : ∀ registration, list.get eid = some registration → Filed registration.attributesList)
    (h : requestsFor eid requests ≠ []) :
    ∃ registration, (updateAll rank list requests).get eid = some registration ∧
      Follows (list.get eid) (requestsFor eid requests) registration ∧
      Filed registration.attributesList := by
  induction requests using List.reverseRecOn with
  | nil => exact absurd rfl h
  | append_singleton requests request ih =>
    rw [requestsFor_concat] at h ⊢
    rw [updateAll_concat, get_updateRegistrationInMemory]
    split_ifs with hid
    · rw [if_pos hid] at h
      subst hid
      by_cases hfirst : requestsFor request.1.id requests = []
      · rw [get_updateAll_of_none rank hfirst, hfirst, List.nil_append]
        cases hget : list.get request.1.id with
        | none =>
          exact ⟨_, rfl, follows_first, filed_setAttributes filed_empty _⟩
        | some before =>
          exact ⟨_, rfl, (follows_nil before).next (hfiled before hget),
            filed_updateExisting (hfiled before hget)⟩
      · obtain ⟨registration, hget, hfollows, hf⟩ := ih hfirst
        rw [hget]
        exact ⟨_, rfl, hfollows.next hf, filed_updateExisting hf⟩
    · rw [if_neg hid] at h
      exact ih h

theorem updateRegistration_eq_updateAll (rank : Nat → String → Nat) (list : CtxRegistrationList)
    (registReq : RegisterContextRequest) :
    updateRegistration rank list registReq =
      updateAll rank list (registReq.contextRegistrations.flatMap (fun registration =>
        registration.entityIdList.map (fun entity => (entity, registration)))) := rfl

theorem registrations_follow_requests (rank : Nat → String → Nat) (list : CtxRegistrationList)
    (requests : List Request) (eid : String)
    (hfiled : ∀ registration, list.get eid = some registration →
      Filed registration.attributesList) :
    (requestsFor eid requests = [] → (updateAll rank list requests).get eid = list.get eid) ∧
      (requestsFor eid requests ≠ [] →
        ∃ registration, (updateAll rank list requests).get eid = some registration ∧
          Follows (list.get eid) (requestsFor eid requests) registration) := by
  refine ⟨get_updateAll_of_none rank, fun h => ?_⟩
  obtain ⟨registration, hget, hfollows, -⟩ := follows_updateAll rank hfiled h
  exact ⟨registration, hget, hfollows⟩

def carRequests : List Request :=
  [(⟨"Car", false, "car1"⟩, ⟨[], [⟨"speed", "float", false⟩, ⟨"color", "string", false⟩],
      [⟨"city", "string", .string "A", .null⟩], "http://broker1"⟩),
    (⟨"", false, "car1"⟩, ⟨[], [⟨"speed", "float", false⟩, ⟨"speed", "int", false⟩],
      [⟨"owner", "string", .string "B", .null⟩], ""⟩)]

theorem car_follows_requests :
    ∃ registration, (updateAll (fun _ _ => 0) ∅ carRequests).get "car1" = some registration ∧
      registration.attributesList.get "color" = none ∧
      registration.attributesList.get "speed" = some ⟨"speed", "int", false⟩ ∧
      registration.metadataList.get "city" = some ⟨"city", "string", .string "A", .null⟩ ∧
      registration.type = "Car" ∧ registration.providingApplication = "http://broker1" := by
  obtain ⟨registration, hget, h⟩ := (registrations_follow_requests (fun _ _ => 0) ∅ carRequests
    "car1" (by simp)).2 (by decide)
  exact ⟨registration, hget, h.attributes _ rfl "color", h.attributes _ rfl "speed",
    h.metadata "city", h.type, h.providingApplication⟩

end FogFlow.Discovery.RequestSequence
