import FogFlow.Discovery.Query
import FogFlow.Library.Execution

namespace FogFlow.Discovery

open Ngsi Loop Execution

inductive Action where
  | create
  | update
  | delete
deriving DecidableEq, Repr

def Action.code : Action → Int
  | .create => 201
  | .update => 301
  | .delete => 410

-- the loops of one step over the subscriptions, the registrations, the metadata and the providers
structure Ranks where
  rank : String → Nat
  metaRank : String → MetaRank
  urlRank : String → Nat

def sendNotify (urlRank : String → Nat) (subID : String) (entityMap : GoMap (List EntityId))
    (action : Action) : NotifyContextAvailabilityRequest where
  subscriptionId := subID
  contextRegistrationResponseList :=
    (entityMap.range urlRank).map (fun e => ⟨⟨e.2, [], [], e.1⟩, ⟨200, "OK"⟩⟩)
  errorCode := ⟨action.code, "OK"⟩

-- registrations live at addresses: an update writes through the pointer that readers hold
structure System where
  objects : Nat → EntityRegistration
  fresh : Nat
  ctxRegistrationList : GoMap Nat
  subscriptions : GoMap SubscribeContextAvailabilityRequest
  queries : List String
  scans : List Nat
  retrieved : List (String × Nat)
  announced : List String
  sent : List NotifyContextAvailabilityRequest

def System.init : System where
  objects _ := ⟨"", "", ∅, ∅, ""⟩
  fresh := 0
  ctxRegistrationList := ∅
  subscriptions := ∅
  queries := []
  scans := []
  retrieved := []
  announced := []
  sent := []

def System.repository (s : System) : CtxRegistrationList := s.ctxRegistrationList.map s.objects

def System.Quiet (s : System) : Prop :=
  s.queries = [] ∧ s.scans = [] ∧ s.retrieved = [] ∧ s.announced = []

variable (math : FloatMath) (matchString : MatchString)

def notifyOne (ranks : Ranks) (registration : EntityRegistration) (updateAction : Action)
    (subscription : GoMap.Entry SubscribeContextAvailabilityRequest) :
    Except Fault (List NotifyContextAvailabilityRequest) := do
  let matched ← matchingWithFilters math matchString (ranks.metaRank subscription.1) registration
    subscription.2.entities subscription.2.attributes subscription.2.restriction
  if matched then
    .ok [sendNotify ranks.urlRank subscription.1
      (GoMap.set ∅ registration.providingApplication [⟨registration.type, false, registration.id⟩])
      updateAction]
  else .ok []

def notifySubscribers (ranks : Ranks)
    (subscriptions : GoMap SubscribeContextAvailabilityRequest) (registration : EntityRegistration)
    (updateAction : Action) : Except Fault (List NotifyContextAvailabilityRequest) :=
  (subscriptions.range ranks.rank).foldlM (fun sent subscription => do
    let notifies ← notifyOne math matchString ranks registration updateAction subscription
    .ok (sent ++ notifies)) []

def handleSubscribeCtxAvailability (ranks : Ranks) (list : CtxRegistrationList) (subID : String)
    (subReq : SubscribeContextAvailabilityRequest) :
    Except Fault (List NotifyContextAvailabilityRequest) := do
  let entityMap ← queryEntities math matchString ranks.rank ranks.metaRank list subReq.entities
    subReq.attributes subReq.restriction
  if entityMap.entries = [] then .ok []
  else .ok [sendNotify ranks.urlRank subID entityMap .create]

def System.updateEntity (s : System) (attrRank : String → Nat) (entity : EntityId)
    (registration : ContextRegistration) : System :=
  match s.ctxRegistrationList.get entity.id with
  | some address => { s with
      objects := Function.update s.objects address
        (updateExisting attrRank (s.objects address) entity registration)
      scans := s.scans ++ [address] }
  | none => { s with
      objects := Function.update s.objects s.fresh (entityRegistration entity registration)
      fresh := s.fresh + 1
      ctxRegistrationList := s.ctxRegistrationList.set entity.id s.fresh
      scans := s.scans ++ [s.fresh] }

inductive Label where
  | subscribe (subID : String) (subReq : SubscribeContextAvailabilityRequest)
  | query (subID : String) (ranks : Ranks)
  | update (attrRank : String → Nat) (entity : EntityId) (registration : ContextRegistration)
  | scan (address : Nat) (ranks : Ranks)
  | retrieve (eid : String)
  | announce (eid : String) (address : Nat) (ranks : Ranks)
  | remove (eid : String)

-- a fault stops the process, so a step that meets one is not a step of any run
def step (s : System) : Label → Option System
  | .subscribe subID subReq =>
      if (s.subscriptions.get subID).isSome then none
      else some { s with
        subscriptions := s.subscriptions.set subID subReq
        queries := s.queries ++ [subID] }
  | .query subID ranks =>
      match s.subscriptions.get subID with
      | some subReq =>
          if subID ∈ s.queries then
            match handleSubscribeCtxAvailability math matchString ranks s.repository subID
              subReq with
            | .ok notifies => some { s with
                queries := s.queries.erase subID
                sent := s.sent ++ notifies }
            | .error _ => none
          else none
      | none => none
  | .update attrRank entity registration => some (s.updateEntity attrRank entity registration)
  | .scan address ranks =>
      if address ∈ s.scans then
        match notifySubscribers math matchString ranks s.subscriptions (s.objects address)
          .update with
        | .ok notifies => some { s with
            scans := s.scans.erase address
            sent := s.sent ++ notifies }
        | .error _ => none
      else none
  | .retrieve eid =>
      match s.ctxRegistrationList.get eid with
      | some address => some { s with retrieved := s.retrieved ++ [(eid, address)] }
      | none => some s
  | .announce eid address ranks =>
      if (eid, address) ∈ s.retrieved then
        match notifySubscribers math matchString ranks s.subscriptions (s.objects address)
          .delete with
        | .ok notifies => some { s with
            retrieved := s.retrieved.erase (eid, address)
            announced := s.announced ++ [eid]
            sent := s.sent ++ notifies }
        | .error _ => none
      else none
  | .remove eid =>
      if eid ∈ s.announced then
        some { s with
          ctxRegistrationList := s.ctxRegistrationList.delete eid
          announced := s.announced.erase eid }
      else none

variable {math matchString} {s t : System} {ranks : Ranks}

variable (math matchString) in
def Matches (registration : EntityRegistration) (request : SubscribeContextAvailabilityRequest) :
    Prop :=
  ∃ metaRank, matchingWithFilters math matchString metaRank registration request.entities
    request.attributes request.restriction = .ok true

def named (n : NotifyContextAvailabilityRequest) : List String :=
  n.contextRegistrationResponseList.flatMap (fun response =>
    response.contextRegistration.entityIdList.map EntityId.id)

-- the message lists the entity with its type under the broker that provides it
def Reports (n : NotifyContextAvailabilityRequest) (registration : EntityRegistration) : Prop :=
  ∃ response ∈ n.contextRegistrationResponseList,
    response.contextRegistration.providingApplication = registration.providingApplication ∧
    ⟨registration.type, false, registration.id⟩ ∈ response.contextRegistration.entityIdList

-- an entity is registered under its own id, so no two entities share a registration
structure Sound (s : System) : Prop where
  below : ∀ eid address, s.ctxRegistrationList.get eid = some address → address < s.fresh
  owned : ∀ eid address, s.ctxRegistrationList.get eid = some address →
    (s.objects address).id = eid
  held : ∀ entry ∈ s.retrieved, entry.2 < s.fresh ∧ (s.objects entry.2).id = entry.1

theorem matches_iff {registration : EntityRegistration}
    {request : SubscribeContextAvailabilityRequest} (metaRank : MetaRank) :
    Matches math matchString registration request ↔
      matchingWithFilters math matchString metaRank registration request.entities
        request.attributes request.restriction = .ok true := by
  constructor
  · rintro ⟨metaRank', h⟩
    exact matchingWithFilters_rank h
  · exact fun h => ⟨metaRank, h⟩

theorem get_repository {eid : String} :
    s.repository.get eid = (s.ctxRegistrationList.get eid).map s.objects :=
  GoMap.get_map s.objects s.ctxRegistrationList eid

theorem Sound.id_of_repository (h : Sound s) {eid : String} {registration : EntityRegistration}
    (hget : s.repository.get eid = some registration) : registration.id = eid := by
  rw [get_repository, Option.map_eq_some_iff] at hget
  obtain ⟨address, haddress, rfl⟩ := hget
  exact h.owned eid address haddress

theorem Sound.address_inj (h : Sound s) {eid eid' : String} {address : Nat}
    (hget : s.ctxRegistrationList.get eid = some address)
    (hget' : s.ctxRegistrationList.get eid' = some address) : eid = eid' :=
  (h.owned eid address hget).symm.trans (h.owned eid' address hget')

-- writing through the address is what updateRegistrationInMemory does to the registrations
theorem repository_updateEntity (h : Sound s) {attrRank : String → Nat} {entity : EntityId}
    {registration : ContextRegistration} {eid : String} :
    (s.updateEntity attrRank entity registration).repository.get eid =
      (updateRegistrationInMemory attrRank s.repository entity registration).get eid := by
  rw [get_updateRegistrationInMemory, get_repository, get_repository, get_repository]
  unfold System.updateEntity
  cases hget : s.ctxRegistrationList.get entity.id with
  | some address =>
    dsimp only
    split_ifs with heid
    · simp [heid, hget]
    · cases hother : s.ctxRegistrationList.get eid with
      | none => rfl
      | some other =>
        have hne : other ≠ address := by
          rintro rfl
          exact heid (h.address_inj hother hget)
        simp [hne]
  | none =>
    dsimp only
    rw [GoMap.get_set]
    split_ifs with heid
    · simp
    · cases hother : s.ctxRegistrationList.get eid with
      | none => rfl
      | some other =>
        have hne : other ≠ s.fresh := (h.below eid other hother).ne
        simp [hne]

theorem sound_updateEntity (h : Sound s) {attrRank : String → Nat} {entity : EntityId}
    {registration : ContextRegistration} :
    Sound (s.updateEntity attrRank entity registration) := by
  unfold System.updateEntity
  cases hget : s.ctxRegistrationList.get entity.id with
  | some address =>
    have hid (p : Nat) : (Function.update s.objects address
        (updateExisting attrRank (s.objects address) entity registration) p).id =
          (s.objects p).id := by
      by_cases hp : p = address
      · simp [hp, updateExisting]
      · simp [hp]
    exact ⟨h.below, fun eid p hp => (hid p).trans (h.owned eid p hp),
      fun entry he => ⟨(h.held entry he).1, (hid entry.2).trans (h.held entry he).2⟩⟩
  | none =>
    have hid (p : Nat) (hp : p < s.fresh) : Function.update s.objects s.fresh
        (entityRegistration entity registration) p = s.objects p := by
      simp [hp.ne]
    refine ⟨fun eid p hp => ?_, fun eid p hp => ?_, fun entry he => ?_⟩
    · rw [GoMap.get_set] at hp
      split_ifs at hp
      · simp [← Option.some.inj hp]
      · exact (h.below eid p hp).trans (Nat.lt_succ_self _)
    · rw [GoMap.get_set] at hp
      split_ifs at hp with heid
      · simp [← Option.some.inj hp, entityRegistration, heid]
      · dsimp only
        rw [hid p (h.below eid p hp)]
        exact h.owned eid p hp
    · obtain ⟨hlt, hown⟩ := h.held entry he
      refine ⟨hlt.trans (Nat.lt_succ_self _), ?_⟩
      dsimp only
      rw [hid entry.2 hlt]
      exact hown

theorem step_subscribe {subID : String} {subReq : SubscribeContextAvailabilityRequest}
    (h : step math matchString s (.subscribe subID subReq) = some t) :
    s.subscriptions.get subID = none ∧ t = { s with
      subscriptions := s.subscriptions.set subID subReq
      queries := s.queries ++ [subID] } := by
  simp only [step] at h
  split_ifs at h with hget
  exact ⟨by simpa using hget, (Option.some.inj h).symm⟩

theorem step_query {subID : String}
    (h : step math matchString s (.query subID ranks) = some t) :
    ∃ subReq notifies, s.subscriptions.get subID = some subReq ∧
      handleSubscribeCtxAvailability math matchString ranks s.repository subID subReq =
        .ok notifies ∧
      t = { s with queries := s.queries.erase subID, sent := s.sent ++ notifies } := by
  simp only [step] at h
  split at h
  case h_1 subReq hget =>
    split_ifs at h
    split at h
    case h_1 notifies hok => exact ⟨subReq, notifies, hget, hok, (Option.some.inj h).symm⟩
    case h_2 => cases h
  case h_2 => cases h

theorem step_scan {address : Nat} (h : step math matchString s (.scan address ranks) = some t) :
    ∃ notifies, notifySubscribers math matchString ranks s.subscriptions (s.objects address)
        .update = .ok notifies ∧
      t = { s with scans := s.scans.erase address, sent := s.sent ++ notifies } := by
  simp only [step] at h
  split_ifs at h
  split at h
  case h_1 notifies hok => exact ⟨notifies, hok, (Option.some.inj h).symm⟩
  case h_2 => cases h

theorem step_retrieve {eid : String} (h : step math matchString s (.retrieve eid) = some t) :
    t = s ∨ ∃ address, s.ctxRegistrationList.get eid = some address ∧
      t = { s with retrieved := s.retrieved ++ [(eid, address)] } := by
  simp only [step] at h
  split at h
  case h_1 address hget => exact Or.inr ⟨address, hget, (Option.some.inj h).symm⟩
  case h_2 => exact Or.inl (Option.some.inj h).symm

theorem step_announce {eid : String} {address : Nat}
    (h : step math matchString s (.announce eid address ranks) = some t) :
    (eid, address) ∈ s.retrieved ∧ ∃ notifies,
      notifySubscribers math matchString ranks s.subscriptions (s.objects address) .delete =
        .ok notifies ∧
      t = { s with
        retrieved := s.retrieved.erase (eid, address)
        announced := s.announced ++ [eid]
        sent := s.sent ++ notifies } := by
  simp only [step] at h
  split_ifs at h with hmem
  split at h
  case h_1 notifies hok => exact ⟨hmem, notifies, hok, (Option.some.inj h).symm⟩
  case h_2 => cases h

theorem step_remove {eid : String} (h : step math matchString s (.remove eid) = some t) :
    eid ∈ s.announced ∧ t = { s with
      ctxRegistrationList := s.ctxRegistrationList.delete eid
      announced := s.announced.erase eid } := by
  simp only [step] at h
  split_ifs at h with hmem
  exact ⟨hmem, (Option.some.inj h).symm⟩

theorem sound_step (h : Sound s) {label : Label} (hs : step math matchString s label = some t) :
    Sound t := by
  cases label with
  | subscribe subID subReq =>
    obtain ⟨-, rfl⟩ := step_subscribe hs
    exact ⟨h.below, h.owned, h.held⟩
  | query subID ranks =>
    obtain ⟨subReq, notifies, -, -, rfl⟩ := step_query hs
    exact ⟨h.below, h.owned, h.held⟩
  | update attrRank entity registration =>
    obtain rfl := Option.some.inj hs
    exact sound_updateEntity h
  | scan address ranks =>
    obtain ⟨notifies, -, rfl⟩ := step_scan hs
    exact ⟨h.below, h.owned, h.held⟩
  | retrieve eid =>
    rcases step_retrieve hs with rfl | ⟨address, hget, rfl⟩
    · exact h
    · refine ⟨h.below, h.owned, fun entry he => ?_⟩
      rcases List.mem_append.mp he with he | he
      · exact h.held entry he
      · rw [List.mem_singleton.mp he]
        exact ⟨h.below eid address hget, h.owned eid address hget⟩
  | announce eid address ranks =>
    obtain ⟨-, notifies, -, rfl⟩ := step_announce hs
    exact ⟨h.below, h.owned, fun entry he => h.held entry (List.mem_of_mem_erase he)⟩
  | remove eid =>
    obtain ⟨-, rfl⟩ := step_remove hs
    exact ⟨fun e p hp => h.below e p (GoMap.get_of_get_delete hp).2,
      fun e p hp => h.owned e p (GoMap.get_of_get_delete hp).2, h.held⟩

theorem get_updateEntity_ne {attrRank : String → Nat} {entity : EntityId}
    {registration : ContextRegistration} {eid : String} (hne : eid ≠ entity.id) :
    (s.updateEntity attrRank entity registration).ctxRegistrationList.get eid =
      s.ctxRegistrationList.get eid := by
  unfold System.updateEntity
  cases s.ctxRegistrationList.get entity.id with
  | some address => rfl
  | none => exact GoMap.get_set_ne _ _ hne

theorem repository_updateEntity_ne (h : Sound s) {attrRank : String → Nat} {entity : EntityId}
    {registration : ContextRegistration} {eid : String} (hne : eid ≠ entity.id) :
    (s.updateEntity attrRank entity registration).repository.get eid = s.repository.get eid := by
  rw [repository_updateEntity h, get_updateRegistrationInMemory, if_neg hne]

-- the scan that an update starts is given the address of the entity's registration
theorem scan_of_updateEntity (attrRank : String → Nat) (entity : EntityId)
    (registration : ContextRegistration) :
    ∃ address, (s.updateEntity attrRank entity registration).ctxRegistrationList.get entity.id =
        some address ∧
      (s.updateEntity attrRank entity registration).scans = s.scans ++ [address] := by
  unfold System.updateEntity
  cases hget : s.ctxRegistrationList.get entity.id with
  | some address => exact ⟨address, hget, rfl⟩
  | none => exact ⟨s.fresh, GoMap.get_set_self _ _ _, rfl⟩

theorem updateEntity_others (attrRank : String → Nat) (entity : EntityId)
    (registration : ContextRegistration) :
    (s.updateEntity attrRank entity registration).subscriptions = s.subscriptions ∧
      (s.updateEntity attrRank entity registration).queries = s.queries ∧
      (s.updateEntity attrRank entity registration).retrieved = s.retrieved ∧
      (s.updateEntity attrRank entity registration).announced = s.announced ∧
      (s.updateEntity attrRank entity registration).sent = s.sent := by
  unfold System.updateEntity
  cases s.ctxRegistrationList.get entity.id <;> exact ⟨rfl, rfl, rfl, rfl, rfl⟩

theorem sound_init : Sound System.init :=
  ⟨by simp [System.init], by simp [System.init], by simp [System.init]⟩

theorem mem_named_sendNotify {urlRank : String → Nat} {subID : String}
    {entityMap : GoMap (List EntityId)} {action : Action} {eid : String} :
    eid ∈ named (sendNotify urlRank subID entityMap action) ↔
      ∃ url entities, entityMap.get url = some entities ∧ ∃ e ∈ entities, e.id = eid := by
  simp only [named, sendNotify, List.mem_flatMap, List.mem_map]
  constructor
  · rintro ⟨_, ⟨⟨url, entities⟩, hmem, rfl⟩, e, he, rfl⟩
    exact ⟨url, entities, GoMap.mem_range.mp hmem, e, he, rfl⟩
  · rintro ⟨url, entities, hget, e, he, rfl⟩
    exact ⟨_, ⟨⟨url, entities⟩, GoMap.mem_range.mpr hget, rfl⟩, e, he, rfl⟩

def notice (ranks : Ranks) (subID : String) (registration : EntityRegistration) (action : Action) :
    NotifyContextAvailabilityRequest :=
  sendNotify ranks.urlRank subID
    (GoMap.set ∅ registration.providingApplication [⟨registration.type, false, registration.id⟩])
    action

theorem mem_named_notice {subID : String} {registration : EntityRegistration} {action : Action}
    {eid : String} :
    eid ∈ named (notice ranks subID registration action) ↔ eid = registration.id := by
  rw [notice, mem_named_sendNotify]
  constructor
  · rintro ⟨url, entities, hget, e, he, rfl⟩
    rw [GoMap.get_set] at hget
    split_ifs at hget
    · rw [← Option.some.inj hget, List.mem_singleton] at he
      rw [he]
    · cases hget
  · rintro rfl
    exact ⟨_, _, GoMap.get_set_self _ _ _, _, List.mem_singleton_self _, rfl⟩

theorem reports_sendNotify {urlRank : String → Nat} {subID : String}
    {entityMap : GoMap (List EntityId)} {action : Action} {registration : EntityRegistration}
    (h : ⟨registration.type, false, registration.id⟩ ∈
      entityMap.slice registration.providingApplication) :
    Reports (sendNotify urlRank subID entityMap action) registration := by
  unfold GoMap.slice at h
  cases hget : entityMap.get registration.providingApplication with
  | none =>
    rw [hget] at h
    cases h
  | some entities =>
    rw [hget] at h
    exact ⟨_, List.mem_map_of_mem (GoMap.mem_range.mpr hget), rfl, h⟩

theorem reports_notice {subID : String} {registration : EntityRegistration} {action : Action} :
    Reports (notice ranks subID registration action) registration :=
  reports_sendNotify (by simp [GoMap.slice_set])

theorem mem_notifySubscribers {subscriptions : GoMap SubscribeContextAvailabilityRequest}
    {registration : EntityRegistration} {action : Action}
    {notifies : List NotifyContextAvailabilityRequest}
    (h : notifySubscribers math matchString ranks subscriptions registration action =
      .ok notifies) {n : NotifyContextAvailabilityRequest} :
    n ∈ notifies ↔ ∃ subID request, subscriptions.get subID = some request ∧
      Matches math matchString registration request ∧
      n = notice ranks subID registration action := by
  rw [mem_foldlM_append h]
  constructor
  · rintro ⟨⟨subID, request⟩, hmem, ns, hns, hn⟩
    obtain ⟨matched, hmatched, hout⟩ := bind_eq_ok.mp hns
    cases matched with
    | false =>
      rw [← Except.ok.inj hout] at hn
      cases hn
    | true =>
      rw [← Except.ok.inj hout] at hn
      exact ⟨subID, request, GoMap.mem_range.mp hmem, ⟨_, hmatched⟩, List.mem_singleton.mp hn⟩
  · rintro ⟨subID, request, hget, hmatch, rfl⟩
    refine ⟨⟨subID, request⟩, GoMap.mem_range.mpr hget, [notice ranks subID registration action],
      ?_, List.mem_singleton_self _⟩
    rw [notifyOne, (matches_iff (ranks.metaRank subID)).mp hmatch]
    rfl

variable (math matchString) in
-- the closest entities up to the limit are others
def LeftOut (ranks : Ranks) (list : CtxRegistrationList)
    (request : SubscribeContextAvailabilityRequest) (eid : String) : Prop :=
  ∃ nearby candidates chosen c,
    getNearbyFilter request.restriction = .ok (some nearby) ∧
    candidatesOf math matchString ranks.rank ranks.metaRank list (some nearby) request.entities
      request.attributes request.restriction = .ok candidates ∧
    closest (some nearby) candidates = .ok chosen ∧ (chosen.length : Int) = nearby.limit ∧
    c ∈ candidates ∧ c.id = eid ∧
    ∀ kept ∈ chosen, kept.id ≠ eid ∧ kept.distance ≤ c.distance

theorem handleSubscribeCtxAvailability_eq_ok {list : CtxRegistrationList} {subID : String}
    {request : SubscribeContextAvailabilityRequest}
    {notifies : List NotifyContextAvailabilityRequest}
    (h : handleSubscribeCtxAvailability math matchString ranks list subID request =
      .ok notifies) :
    ∃ nearby candidates chosen, getNearbyFilter request.restriction = .ok nearby ∧
      candidatesOf math matchString ranks.rank ranks.metaRank list nearby request.entities
        request.attributes request.restriction = .ok candidates ∧
      closest nearby candidates = .ok chosen ∧
      notifies = if (entityMapOf chosen).entries = [] then []
        else [sendNotify ranks.urlRank subID (entityMapOf chosen) .create] := by
  obtain ⟨entityMap, hquery, hout⟩ := bind_eq_ok.mp h
  obtain ⟨nearby, hnearby, hquery⟩ := bind_eq_ok.mp hquery
  obtain ⟨candidates, hcandidates, hquery⟩ := bind_eq_ok.mp hquery
  obtain ⟨chosen, hchosen, hmap⟩ := bind_eq_ok.mp hquery
  obtain rfl := Except.ok.inj hmap
  refine ⟨nearby, candidates, chosen, hnearby, hcandidates, hchosen, ?_⟩
  split_ifs at hout ⊢ <;> exact (Except.ok.inj hout).symm

theorem mem_named_create {subID : String} {chosen : List Candidate} {eid : String} :
    eid ∈ named (sendNotify ranks.urlRank subID (entityMapOf chosen) .create) ↔
      ∃ c ∈ chosen, c.id = eid := by
  rw [mem_named_sendNotify]
  constructor
  · rintro ⟨url, entities, hget, e, he, rfl⟩
    obtain ⟨c, hc, rfl⟩ := mem_entityMapOf.mp ⟨url, entities, hget, he⟩
    exact ⟨c, hc, rfl⟩
  · rintro ⟨c, hc, rfl⟩
    obtain ⟨url, entities, hget, he⟩ := mem_entityMapOf.mpr ⟨c, hc, rfl⟩
    exact ⟨url, entities, hget, _, he, rfl⟩

theorem create_names {list : CtxRegistrationList} {subID : String}
    {request : SubscribeContextAvailabilityRequest}
    {notifies : List NotifyContextAvailabilityRequest}
    (h : handleSubscribeCtxAvailability math matchString ranks list subID request = .ok notifies)
    {n : NotifyContextAvailabilityRequest} (hn : n ∈ notifies) :
    n.subscriptionId = subID ∧ n.errorCode.code = 201 ∧
      ∀ eid ∈ named n, ∃ k registration, list.get k = some registration ∧
        registration.id = eid ∧ Matches math matchString registration request ∧
          Reports n registration := by
  obtain ⟨nearby, candidates, chosen, -, hcandidates, hchosen, rfl⟩ :=
    handleSubscribeCtxAvailability_eq_ok h
  split_ifs at hn
  · cases hn
  · obtain rfl := List.mem_singleton.mp hn
    refine ⟨rfl, rfl, fun eid heid => ?_⟩
    obtain ⟨c, hc, rfl⟩ := mem_named_create.mp heid
    obtain ⟨k, registration, hget, hmatch, hdescribes⟩ :=
      matching_of_mem_candidatesOf hcandidates (mem_of_mem_closest hchosen hc)
    refine ⟨k, registration, hget, hdescribes.id.symm, ⟨_, hmatch⟩, reports_sendNotify ?_⟩
    rw [mem_slice_entityMapOf]
    refine ⟨c, hc, hdescribes.provider, ?_⟩
    rw [hdescribes.id, hdescribes.type]

theorem create_covers {list : CtxRegistrationList} {subID : String}
    {request : SubscribeContextAvailabilityRequest}
    {notifies : List NotifyContextAvailabilityRequest}
    (h : handleSubscribeCtxAvailability math matchString ranks list subID request = .ok notifies)
    {k : String} {registration : EntityRegistration} (hget : list.get k = some registration)
    (hmatch : Matches math matchString registration request) :
    (∃ n ∈ notifies, n.subscriptionId = subID ∧ registration.id ∈ named n) ∨
      LeftOut math matchString ranks list request registration.id := by
  obtain ⟨nearby, candidates, chosen, hnearby, hcandidates, hchosen, rfl⟩ :=
    handleSubscribeCtxAvailability_eq_ok h
  obtain ⟨c, hc, hdescribes⟩ := mem_candidatesOf_of_matching hcandidates hget
    ((matches_iff (ranks.metaRank k)).mp hmatch)
  have hid := hdescribes.id
  by_cases hkept : ∃ kept ∈ chosen, kept.id = registration.id
  · obtain ⟨kept, hmem, hkid⟩ := hkept
    obtain ⟨url, es, hes, -⟩ := mem_entityMapOf.mpr ⟨kept, hmem, rfl⟩
    have hne : (entityMapOf chosen).entries ≠ [] :=
      List.ne_nil_of_mem (GoMap.mem_entries.mpr hes)
    rw [if_neg hne]
    exact Or.inl ⟨_, List.mem_singleton_self _, rfl, mem_named_create.mpr ⟨kept, hmem, hkid⟩⟩
  · have hcut : c ∉ chosen := fun hmem => hkept ⟨c, hmem, hid⟩
    obtain ⟨n, rfl, hlength, -, hclose⟩ := closest_cut hchosen hc hcut
    exact Or.inr ⟨n, candidates, chosen, c, hnearby, hcandidates, hchosen, hlength, hc, hid,
      fun kept hmem => ⟨fun hkid => hkept ⟨kept, hmem, hkid⟩, hclose kept hmem⟩⟩

end FogFlow.Discovery
