import FogFlow.Broker.Index
import FogFlow.Library.Execution

namespace FogFlow.Broker.Processing

open Ngsi Execution

structure Naming where
  main : String
  action : Action
  provider : String
  entity : EntityId
deriving DecidableEq, Repr

-- the broker and all that its availability notifications have named so far
structure System where
  broker : ThinBroker
  log : List Naming

def System.initial : System := ⟨⟨∅, ∅, .empty, false⟩, []⟩

def System.request (s : System) (main : String) : Option SubscribeContextRequest :=
  s.broker.subscriptions.get main

inductive Label where
  | subscribe (subID : String) (subReq : SubscribeContextRequest)
  | notify (main : String) (req : NotifyContextAvailabilityRequest) (sids : List String)
deriving DecidableEq, Repr

def Label.action : Label → Option Action
  | .subscribe _ _ => none
  | .notify _ req _ => some (actionOf req.errorCode.code)

def namings (main : String) (action : Action) (registration : ContextRegistration) :
    List Naming :=
  registration.entityIdList.map (⟨main, action, registration.providingApplication, ·⟩)

def namingsOf (main : String) (req : NotifyContextAvailabilityRequest) : List Naming :=
  req.contextRegistrationResponseList.flatMap (fun registrationResp =>
    namings main (actionOf req.errorCode.code) registrationResp.contextRegistration)

def logOf (log : List Naming) (main : String) : List Naming :=
  log.filter (fun n => n.main == main)

def notify (cfg : Config) (s : System) (main : String) (req : NotifyContextAvailabilityRequest)
    (sids : List String) : System :=
  ⟨(handleNGSI9Notify cfg (fun i => sids[i]?) main req false s.broker).state,
    s.log ++ namingsOf main req⟩

-- each provider that is asked answers with a new id
def Fresh (s : System) (req : NotifyContextAvailabilityRequest) (sids : List String) : Prop :=
  sids.length = req.contextRegistrationResponseList.length ∧ sids.Nodup ∧
    ∀ sid ∈ sids, s.request sid = none

instance (s : System) (req : NotifyContextAvailabilityRequest) (sids : List String) :
    Decidable (Fresh s req sids) :=
  inferInstanceAs (Decidable (_ ∧ _ ∧ _))

-- discovery is asked about the external subscriptions only
def step (cfg : Config) (s : System) : Label → Option System
  | .subscribe subID subReq =>
      if s.request subID = none then some ⟨(subscribeContext subReq subID s.broker).state, s.log⟩
      else none
  | .notify main req sids =>
      if (s.request main).any (fun request => !request.subscriber.isInternal) = true ∧
          Fresh s req sids then some (notify cfg s main req sids)
      else none

-- one registration of a message
abbrev Turn := ContextRegistrationResponse × String

def turn (cfg : Config) (main : String) (action : Action) (request : SubscribeContextRequest)
    (s : System) (r : Turn) : System where
  broker := registered cfg action (some request) main (some r.2) r.1.contextRegistration s.broker
  log := s.log ++ namings main action r.1.contextRegistration

def turnStep (cfg : Config) (main : String) (action : Action) (request : SubscribeContextRequest)
    (s : System) (r : Turn) : Option System :=
  if s.request r.2 = none then some (turn cfg main action request s r) else none

def remoteOf (cfg : Config) (main : String) (action : Action) (request : SubscribeContextRequest)
    (s : System) (r : Turn) : Option SubscribeContextRequest :=
  remote cfg action (some request) main r.1.contextRegistration s.broker.entityId2Subcriptions

def reaches (request : SubscribeContextRequest) (entity : EntityId) : Bool :=
  if request.isSimplyByType then request.entities.any (fun e => e.type == entity.type)
  else request.entities.any (fun e => e.id == entity.id)

-- how many subscriptions of this broker at a provider stand behind main for the entity
def live (tb : ThinBroker) (main provider : String) (entity : EntityId) : Nat :=
  (tb.subLinks.main2Other.slice main).countP (fun sid => (tb.subscriptions.get sid).any
    (fun request => request.subscriber.brokerURL == provider && reaches request entity))

section Turns

variable {cfg : Config} {main : String} {action : Action} {request : SubscribeContextRequest}
  {s t : System} {r : Turn}

theorem broker_turn (s : System) (r : Turn) :
    (turn cfg main action request s r).broker =
      withIndex (match remoteOf cfg main action request s r with
        | none => s.broker
        | some q => s.broker.addRemote main r.2 q)
      (applyOps s.broker.entityId2Subcriptions (entitiesOps action (some request) main
        r.1.contextRegistration.entityIdList)) := by
  rw [turn, registered, contacted_some]
  rfl

theorem request_turn (s : System) (r : Turn) (k : String) :
    (turn cfg main action request s r).request k =
      if k = r.2 then (remoteOf cfg main action request s r).or (s.request k)
      else s.request k := by
  rw [System.request, broker_turn]
  cases remoteOf cfg main action request s r with
  | none => simp [withIndex, System.request]
  | some q => simp [withIndex, ThinBroker.addRemote, ThinBroker.putSubscription, GoMap.get_set,
      System.request]

theorem main2Other_turn (s : System) (r : Turn) (m : String) :
    (turn cfg main action request s r).broker.subLinks.main2Other.slice m =
      s.broker.subLinks.main2Other.slice m ++
        if m = main ∧ (remoteOf cfg main action request s r).isSome then [r.2] else [] := by
  rw [broker_turn]
  cases remoteOf cfg main action request s r with
  | none => simp [withIndex]
  | some q =>
    by_cases hm : m = main
    · simp [withIndex, ThinBroker.addRemote, SubLinks.addOther, GoMap.slice_set, hm]
    · simp [withIndex, ThinBroker.addRemote, ThinBroker.putSubscription, SubLinks.addOther,
        GoMap.slice_set, hm]

theorem request_turnStep (h : turnStep cfg main action request s r = some t) (k : String)
    (hk : s.request k ≠ none) : t.request k = s.request k := by
  unfold turnStep at h
  split_ifs at h with hfresh
  obtain rfl := Option.some.inj h
  rw [request_turn, if_neg]
  rintro rfl
  exact hk hfresh

theorem index_turn (s : System) (r : Turn) :
    (turn cfg main action request s r).broker.entityId2Subcriptions =
      applyOps s.broker.entityId2Subcriptions (entitiesOps action (some request) main
        r.1.contextRegistration.entityIdList) := by
  rw [broker_turn]
  rfl

theorem lock_turn (s : System) (r : Turn) :
    (turn cfg main action request s r).broker.e2subLocked = s.broker.e2subLocked := by
  rw [broker_turn]
  cases remoteOf cfg main action request s r <;> rfl

theorem reaches_remoteRequest (entities : List EntityId) (registration : ContextRegistration)
    (entity : EntityId) :
    reaches (remoteRequest cfg entities registration) entity =
      if entities.all EntityId.isSimplyByType then entities.any (fun e => e.type == entity.type)
      else entities.any (fun e => e.id == entity.id) := rfl

theorem reaches_of_mem {entities : List EntityId} {registration : ContextRegistration}
    {entity : EntityId} (h : entity ∈ entities) :
    reaches (remoteRequest cfg entities registration) entity = true := by
  rw [reaches_remoteRequest]
  split_ifs
  · exact List.any_eq_true.mpr ⟨entity, h, beq_self_eq_true _⟩
  · exact List.any_eq_true.mpr ⟨entity, h, beq_self_eq_true _⟩

theorem mem_missingEntities {index : Index} {registration : ContextRegistration}
    {entity : EntityId} : entity ∈ missingEntities index main request registration ↔
      entity ∈ request.entities ∧ (∃ e ∈ registration.entityIdList, e.type = entity.type) ∧
        main ∉ index.slice (genWildCard entity.type) := by
  unfold missingEntities
  rw [List.mem_filter]
  refine and_congr_right (fun _ => ?_)
  cases hfind : registration.entityIdList.find? (fun e => entity.type == e.type) with
  | none =>
    have hnone := List.find?_eq_none.mp hfind
    constructor
    · exact fun h => absurd h (by simp)
    · rintro ⟨⟨e, he, htype⟩, -⟩
      exact absurd (by simp [htype]) (hnone e he)
  | some e =>
    have htype : entity.type = e.type := by simpa using List.find?_some hfind
    have hmem : e ∈ registration.entityIdList := List.mem_of_find?_eq_some hfind
    simp only [EntityId.getTypeWildCard]
    rw [← htype]
    constructor
    · exact fun h => ⟨⟨e, hmem, htype.symm⟩, by simpa using h⟩
    · exact fun h => by simpa using h.2

theorem remote_any (index : Index) (registration : ContextRegistration) (provider : String)
    (entity : EntityId) :
    (remote cfg action (some request) main registration index).any (fun q =>
      q.subscriber.brokerURL == provider && reaches q entity) = true ↔
      registration.providingApplication ≠ cfg.myURL ∧ action ≠ .delete ∧
        provider = registration.providingApplication ∧
        reaches (remoteRequest cfg (remoteEntities index (some request) main registration)
          registration) entity = true := by
  simp only [remote]
  split_ifs with hnone
  · refine ⟨fun h => absurd h (by simp), ?_⟩
    rintro ⟨howner, hact, -, hreach⟩
    rcases hnone with h | h | h
    · exact absurd h howner
    · rw [h] at hreach
      cases hreach
    · exact absurd h hact
  · push Not at hnone
    simp only [Option.any_some, Bool.and_eq_true, beq_iff_eq]
    constructor
    · rintro ⟨hurl, hreach⟩
      exact ⟨hnone.1, hnone.2.2, hurl.symm, hreach⟩
    · rintro ⟨-, -, hurl, hreach⟩
      exact ⟨hurl.symm, hreach⟩

theorem reaches_byType (hsimple : request.isSimplyByType = true) (index : Index)
    (registration : ContextRegistration) (entity : EntityId) :
    reaches (remoteRequest cfg (remoteEntities index (some request) main registration)
      registration) entity = true ↔
      (∃ e ∈ request.entities, e.type = entity.type) ∧
        (∃ e ∈ registration.entityIdList, e.type = entity.type) ∧
        main ∉ index.slice (genWildCard entity.type) := by
  have hentities : remoteEntities index (some request) main registration =
      missingEntities index main request registration := if_pos hsimple
  have hall : (missingEntities index main request registration).all EntityId.isSimplyByType =
      true := by
    have hrequest : request.entities.all EntityId.isSimplyByType = true :=
      (Bool.and_eq_true_iff.mp hsimple).2
    exact List.all_eq_true.mpr (fun e he =>
      List.all_eq_true.mp hrequest e (mem_missingEntities.mp he).1)
  rw [hentities, reaches_remoteRequest, if_pos hall, List.any_eq_true]
  constructor
  · rintro ⟨e, he, htype⟩
    obtain ⟨hmem, hnamed, hindex⟩ := mem_missingEntities.mp he
    obtain htype := beq_iff_eq.mp htype
    rw [htype] at hnamed hindex
    exact ⟨⟨e, hmem, htype⟩, hnamed, hindex⟩
  · rintro ⟨⟨e, hmem, htype⟩, hnamed, hindex⟩
    refine ⟨e, mem_missingEntities.mpr ⟨hmem, ?_, ?_⟩, beq_iff_eq.mpr htype⟩
    · rw [htype]
      exact hnamed
    · rw [htype]
      exact hindex

end Turns

-- an id that no map knows is in no list
structure Known (s : System) : Prop where
  unlocked : Unlocked s.broker
  index : ∀ k x, x ∈ s.broker.entityId2Subcriptions.slice k → s.request x ≠ none
  others : ∀ m sid, sid ∈ s.broker.subLinks.main2Other.slice m →
    s.request m ≠ none ∧ s.request sid ≠ none
  log : ∀ n ∈ s.log, s.request n.main ≠ none

theorem known_initial : Known .initial where
  unlocked := rfl
  index k x h := by simp [System.initial] at h
  others m sid h := by simp [System.initial, SubLinks.empty] at h
  log n h := by simp [System.initial] at h

section Preserved

variable {cfg : Config} {main : String} {action : Action} {request : SubscribeContextRequest}
  {s t : System} {r : Turn}

theorem request_of_turn {k : String} (hfresh : s.request r.2 = none) (hk : s.request k ≠ none) :
    (turn cfg main action request s r).request k = s.request k := by
  rw [request_turn, if_neg]
  rintro rfl
  exact hk hfresh

theorem request_turn_ne {k : String} (hfresh : s.request r.2 = none) (hk : s.request k ≠ none) :
    (turn cfg main action request s r).request k ≠ none := by
  rw [request_of_turn hfresh hk]
  exact hk

theorem known_turn (h : Known s) (hmain : s.request main ≠ none)
    (hfresh : s.request r.2 = none) : Known (turn cfg main action request s r) where
  unlocked := (lock_turn s r).trans h.unlocked
  index k x hx := by
    rw [index_turn] at hx
    by_cases hxm : x = main
    · rw [hxm]
      exact request_turn_ne hfresh hmain
    · have hold := (mem_applyOps_of_member (fun op hop heq =>
        hxm (heq.symm.trans (member_of_mem_entitiesOps hop)))).mp hx
      exact request_turn_ne hfresh (h.index k x hold)
  others m sid hsid := by
    rw [main2Other_turn] at hsid
    rcases List.mem_append.mp hsid with hold | hnew
    · obtain ⟨hm, hs⟩ := h.others m sid hold
      exact ⟨request_turn_ne hfresh hm, request_turn_ne hfresh hs⟩
    · split_ifs at hnew with hmade
      · obtain rfl := List.mem_singleton.mp hnew
        obtain ⟨q, hq⟩ := Option.isSome_iff_exists.mp hmade.2
        rw [hmade.1]
        exact ⟨request_turn_ne hfresh hmain, by simp [request_turn, hq]⟩
      · cases hnew
  log n hn := by
    rcases List.mem_append.mp hn with hold | hnew
    · exact request_turn_ne hfresh (h.log n hold)
    · obtain ⟨e, -, rfl⟩ := List.mem_map.mp hnew
      exact request_turn_ne hfresh hmain

theorem live_turn (h : Known s) (hfresh : s.request r.2 = none) (m provider : String)
    (entity : EntityId) :
    live (turn cfg main action request s r).broker m provider entity =
      live s.broker m provider entity +
        if m = main ∧ (remoteOf cfg main action request s r).any (fun q =>
          q.subscriber.brokerURL == provider && reaches q entity) = true then 1 else 0 := by
  have hold : ∀ sid ∈ s.broker.subLinks.main2Other.slice m,
      (turn cfg main action request s r).request sid = s.request sid :=
    fun sid hsid => request_of_turn hfresh (h.others m sid hsid).2
  have hnew : (turn cfg main action request s r).request r.2 =
      remoteOf cfg main action request s r := by
    rw [request_turn, if_pos rfl, hfresh, Option.or_none]
  simp only [System.request] at hold hnew
  unfold live
  rw [main2Other_turn, List.countP_append]
  congr 1
  · exact List.countP_congr (fun sid hsid => by rw [hold sid hsid])
  · cases hq : remoteOf cfg main action request s r with
    | none => simp
    | some q =>
      rw [hq] at hnew
      by_cases hm : m = main
      · simp [hm, hnew, List.countP_cons]
      · simp [hm]

-- a message is the run of its registrations
theorem foldl_turn {sids : List String} {req : NotifyContextAvailabilityRequest}
    {answers : Nat → Option String} {list : List ContextRegistrationResponse} {n : Nat}
    (hanswers : ∀ i, answers (n + i) = sids[i]?) (hlen : sids.length = list.length)
    (s : System) :
    (list.zip sids).foldl (turn cfg main (actionOf req.errorCode.code) request) s =
      ⟨(list.zipIdx n).foldl (fun tb registrationResp =>
        registered cfg (actionOf req.errorCode.code) (some request) main
          (answers registrationResp.2) registrationResp.1.contextRegistration tb) s.broker,
        s.log ++ list.flatMap (fun registrationResp =>
          namings main (actionOf req.errorCode.code) registrationResp.contextRegistration)⟩ := by
  induction list generalizing sids n s with
  | nil => simp
  | cons registrationResp list ih =>
    cases sids with
    | nil => simp at hlen
    | cons sid sids =>
      have hhead : answers n = some sid := by simpa using hanswers 0
      have htail : ∀ i, answers (n + 1 + i) = sids[i]? := by
        intro i
        have hi := hanswers (i + 1)
        rwa [List.getElem?_cons_succ, Nat.add_comm i 1, ← Nat.add_assoc] at hi
      rw [List.zip_cons_cons, List.foldl_cons, ih htail (by simpa using hlen)]
      simp [turn, hhead, List.zipIdx_cons]

theorem notify_eq {sids : List String} {req : NotifyContextAvailabilityRequest}
    (hunlocked : Unlocked s.broker) (hget : s.request main = some request)
    (hlen : sids.length = req.contextRegistrationResponseList.length) :
    notify cfg s main req sids = (req.contextRegistrationResponseList.zip sids).foldl
      (turn cfg main (actionOf req.errorCode.code) request) s := by
  have hanswers : ∀ i, (fun j => sids[j]?) (0 + i) = sids[i]? := fun i => by simp
  rw [foldl_turn hanswers hlen]
  have hhandle : handleNGSI9Notify cfg (fun i => sids[i]?) main req false s.broker =
      ⟨notified cfg (fun i => sids[i]?) main req (some request) s.broker, .done⟩ :=
    handleNGSI9Notify_of_get hunlocked hget
  rw [notify, hhandle]
  rfl

theorem exec_turnStep {rs : List Turn} (hnodup : (rs.map Prod.snd).Nodup)
    (hfresh : ∀ r ∈ rs, s.request r.2 = none) :
    exec (turnStep cfg main action request) s rs =
      some (rs.foldl (turn cfg main action request) s) := by
  induction rs generalizing s with
  | nil => rfl
  | cons r rs ih =>
    rw [List.map_cons, List.nodup_cons] at hnodup
    have hrest : ∀ r' ∈ rs, (turn cfg main action request s r).request r'.2 = none := by
      intro r' hr'
      rw [request_turn, if_neg]
      · exact hfresh r' (List.mem_cons_of_mem _ hr')
      · intro heq
        exact hnodup.1 (heq ▸ List.mem_map_of_mem hr')
    rw [exec, turnStep, if_pos (hfresh r List.mem_cons_self), Option.bind_some, List.foldl_cons]
    exact ih hnodup.2 hrest

theorem turn_of_turnStep (hs : turnStep cfg main action request s r = some t) :
    s.request r.2 = none ∧ t = turn cfg main action request s r := by
  unfold turnStep at hs
  split_ifs at hs with hfresh
  exact ⟨hfresh, (Option.some.inj hs).symm⟩

theorem known_turnStep (h : Known s) (hmain : s.request main ≠ none)
    (hs : turnStep cfg main action request s r = some t) :
    Known t ∧ t.request main = s.request main := by
  obtain ⟨hfresh, rfl⟩ := turn_of_turnStep hs
  exact ⟨known_turn h hmain hfresh, request_of_turn hfresh hmain⟩

theorem known_run {rs : List Turn} (h : Known s) (hmain : s.request main = some request)
    (hrun : exec (turnStep cfg main action request) s rs = some t) :
    Known t ∧ t.request main = some request := by
  refine exec_invariant (P := fun u => Known u ∧ u.request main = some request) hrun
    ⟨h, hmain⟩ ?_
  intro u r v ⟨hu, hget⟩ hv
  obtain ⟨hknown, hsame⟩ := known_turnStep hu (by simp [hget]) hv
  exact ⟨hknown, hsame.trans hget⟩

-- no registration ends a subscription at a provider
theorem live_le_run {rs : List Turn} (h : Known s) (hmain : s.request main = some request)
    (hrun : exec (turnStep cfg main action request) s rs = some t) (m provider : String)
    (entity : EntityId) :
    live s.broker m provider entity ≤ live t.broker m provider entity := by
  refine exec_induction (motive := fun _ u => live s.broker m provider entity ≤
    live u.broker m provider entity) hrun (le_refl _) ?_
  intro js r u v _ hu hle hv
  obtain ⟨hfresh, rfl⟩ := turn_of_turnStep hv
  rw [live_turn (known_run h hmain hu).1 hfresh]
  omega

end Preserved

-- what a step for a message amounts to
structure Notified (cfg : Config) (s : System) (main : String)
    (req : NotifyContextAvailabilityRequest) (sids : List String)
    (request : SubscribeContextRequest) (t : System) : Prop where
  behind : s.request main = some request
  external : request.subscriber.isInternal = false
  length : sids.length = req.contextRegistrationResponseList.length
  run : exec (turnStep cfg main (actionOf req.errorCode.code) request) s
    (req.contextRegistrationResponseList.zip sids) = some t
  log : t.log = s.log ++ namingsOf main req

theorem notified_of_step {cfg : Config} {s t : System} {main : String}
    {req : NotifyContextAvailabilityRequest} {sids : List String} (h : Known s)
    (hs : step cfg s (.notify main req sids) = some t) :
    ∃ request, Notified cfg s main req sids request t := by
  simp only [step] at hs
  split_ifs at hs with hguard
  obtain ⟨hany, hlen, hnodup, hfresh⟩ := hguard
  obtain ⟨request, hget, hexternal⟩ := (Option.any_eq_true _ _).mp hany
  have hzip : ((req.contextRegistrationResponseList.zip sids).map Prod.snd).Nodup := by
    rw [List.map_snd_zip (le_of_eq hlen)]
    exact hnodup
  have hall : ∀ r ∈ req.contextRegistrationResponseList.zip sids, s.request r.2 = none :=
    fun r hr => hfresh r.2 (List.of_mem_zip hr).2
  obtain rfl := Option.some.inj hs
  refine ⟨request, hget, by simpa using hexternal, hlen, ?_, rfl⟩
  rw [notify_eq h.unlocked hget hlen]
  exact exec_turnStep hzip hall

theorem subscribed_of_step {cfg : Config} {s t : System} {subID : String}
    {subReq : SubscribeContextRequest} (h : Known s)
    (hs : step cfg s (.subscribe subID subReq) = some t) :
    s.request subID = none ∧ t = ⟨withIndex (s.broker.putSubscription subID subReq)
      (applyOps s.broker.entityId2Subcriptions (ownOps subReq subID)), s.log⟩ := by
  simp only [step] at hs
  split_ifs at hs with hfresh
  rw [subscribeContext_eq subReq subID h.unlocked] at hs
  exact ⟨hfresh, (Option.some.inj hs).symm⟩

theorem request_of_step {cfg : Config} {s t : System} {label : Label} {k : String}
    (h : Known s) (hs : step cfg s label = some t) (hk : s.request k ≠ none) :
    t.request k = s.request k := by
  cases label with
  | subscribe subID subReq =>
    obtain ⟨hfresh, rfl⟩ := subscribed_of_step h hs
    refine GoMap.get_set_ne _ _ ?_
    rintro rfl
    exact hk hfresh
  | notify main req sids =>
    obtain ⟨request, hn⟩ := notified_of_step h hs
    refine exec_invariant (P := fun u => u.request k = s.request k) hn.run rfl ?_
    intro u r v hu hv
    exact (request_turnStep hv k (hu ▸ hk)).trans hu

theorem known_step {cfg : Config} {s t : System} {label : Label} (h : Known s)
    (hs : step cfg s label = some t) : Known t := by
  cases label with
  | subscribe subID subReq =>
    have hkeep : ∀ k, s.request k ≠ none → t.request k ≠ none := by
      intro k hk
      rw [request_of_step h hs hk]
      exact hk
    obtain ⟨hfresh, rfl⟩ := subscribed_of_step h hs
    refine ⟨h.unlocked, fun k x hx => ?_, fun m sid hsid => ?_, fun n hn => hkeep _ (h.log n hn)⟩
    · by_cases hsub : x = subID
      · rw [hsub]
        simp [System.request, withIndex, ThinBroker.putSubscription]
      · refine hkeep x (h.index k x ((mem_applyOps_of_member (fun op hop heq => ?_)).mp hx))
        obtain ⟨id, rfl⟩ := mem_ownOps hop
        exact hsub heq.symm
    · obtain ⟨hm, hs⟩ := h.others m sid hsid
      exact ⟨hkeep m hm, hkeep sid hs⟩
  | notify main req sids =>
    obtain ⟨request, hn⟩ := notified_of_step h hs
    exact (known_run h hn.behind hn.run).1

theorem known_exec {cfg : Config} {labels : List Label} {s : System}
    (h : exec (step cfg) .initial labels = some s) : Known s :=
  exec_invariant h known_initial (fun _ _ _ hs ht => known_step hs ht)

theorem main_of_mem_namingsOf {main : String} {req : NotifyContextAvailabilityRequest}
    {n : Naming} (h : n ∈ namingsOf main req) : n.main = main := by
  obtain ⟨registrationResp, -, hn⟩ := List.mem_flatMap.mp h
  obtain ⟨e, -, rfl⟩ := List.mem_map.mp hn
  rfl

theorem live_subscribe {cfg : Config} {s t : System} {subID : String}
    {subReq : SubscribeContextRequest} (h : Known s)
    (hs : step cfg s (.subscribe subID subReq) = some t) (m provider : String)
    (entity : EntityId) : live t.broker m provider entity = live s.broker m provider entity := by
  have hkeep := fun k => request_of_step (k := k) h hs
  obtain ⟨hfresh, rfl⟩ := subscribed_of_step h hs
  refine List.countP_congr (fun sid hsid => ?_)
  have hsame := hkeep sid (h.others m sid hsid).2
  simp only [System.request] at hsame
  rw [hsame]

theorem live_le_step {cfg : Config} {s t : System} {label : Label} (h : Known s)
    (hs : step cfg s label = some t) (m provider : String) (entity : EntityId) :
    live s.broker m provider entity ≤ live t.broker m provider entity := by
  cases label with
  | subscribe subID subReq => rw [live_subscribe h hs]
  | notify main req sids =>
    obtain ⟨request, hn⟩ := notified_of_step h hs
    exact live_le_run h hn.behind hn.run m provider entity

section PerSubscription

variable {cfg : Config} {main m : String} {action : Action} {request q : SubscribeContextRequest}
  {s t : System} {r : Turn}

theorem logOf_append (a b : List Naming) : logOf (a ++ b) main = logOf a main ++ logOf b main :=
  List.filter_append ..

theorem logOf_namings_self (registration : ContextRegistration) :
    logOf (namings main action registration) main = namings main action registration := by
  refine List.filter_eq_self.mpr (fun n hn => ?_)
  obtain ⟨e, -, rfl⟩ := List.mem_map.mp hn
  exact beq_self_eq_true _

theorem logOf_namings_ne (hm : m ≠ main) (registration : ContextRegistration) :
    logOf (namings main action registration) m = [] := by
  refine List.filter_eq_nil_iff.mpr (fun n hn => ?_)
  obtain ⟨e, -, rfl⟩ := List.mem_map.mp hn
  simpa using hm.symm

theorem logOf_namingsOf_ne (hm : m ≠ main) (req : NotifyContextAvailabilityRequest) :
    logOf (namingsOf main req) m = [] := by
  refine List.filter_eq_nil_iff.mpr (fun n hn => ?_)
  rw [main_of_mem_namingsOf hn]
  simpa using hm.symm

theorem logOf_turn (s : System) (r : Turn) :
    logOf (turn cfg main action request s r).log main =
      logOf s.log main ++ namings main action r.1.contextRegistration := by
  rw [turn, logOf_append, logOf_namings_self]

-- all that the maps and the log say about one subscription
structure SameFor (m : String) (s t : System) : Prop where
  index : ∀ k, (t.broker.entityId2Subcriptions.slice k).count m =
    (s.broker.entityId2Subcriptions.slice k).count m
  live : ∀ provider entity, live t.broker m provider entity = live s.broker m provider entity
  log : logOf t.log m = logOf s.log m

theorem sameFor_turn (h : Known s) (hfresh : s.request r.2 = none) (hm : m ≠ main) :
    SameFor m s (turn cfg main action request s r) where
  index k := by
    rw [index_turn]
    exact count_applyOps_of_member (fun op hop heq =>
      hm (heq.symm.trans (member_of_mem_entitiesOps hop)))
  live provider entity := by
    rw [live_turn h hfresh, if_neg (fun hadd => hm hadd.1), Nat.add_zero]
  log := by rw [turn, logOf_append, logOf_namings_ne hm, List.append_nil]

theorem sameFor_subscribe {subID : String} {subReq : SubscribeContextRequest} (h : Known s)
    (hs : step cfg s (.subscribe subID subReq) = some t)
    (hm : m = subID → subReq.subscriber.isInternal = false) : SameFor m s t where
  index k := by
    obtain ⟨-, rfl⟩ := subscribed_of_step h hs
    refine count_applyOps_of_member (fun op hop heq => ?_)
    obtain ⟨id, rfl⟩ := mem_ownOps hop
    rw [ownOps, hm heq.symm] at hop
    cases hop
  live provider entity := live_subscribe h hs m provider entity
  log := by
    obtain ⟨-, rfl⟩ := subscribed_of_step h hs
    rfl

theorem unknown_index (h : Known s) (hm : s.request m = none) (k : String) :
    (s.broker.entityId2Subcriptions.slice k).count m = 0 :=
  List.count_eq_zero.mpr (fun hk => h.index k m hk hm)

theorem unknown_live (h : Known s) (hm : s.request m = none) (provider : String)
    (entity : EntityId) : live s.broker m provider entity = 0 := by
  have hothers : s.broker.subLinks.main2Other.slice m = [] :=
    List.eq_nil_iff_forall_not_mem.mpr (fun sid hsid => (h.others m sid hsid).1 hm)
  rw [live, hothers]
  rfl

theorem unknown_log (h : Known s) (hm : s.request m = none) : logOf s.log m = [] :=
  List.filter_eq_nil_iff.mpr (fun n hn heq => h.log n hn ((beq_iff_eq.mp heq) ▸ hm))

-- a property of one subscription that only the messages for it can change
structure Local (cfg : Config) (A : Action → Prop)
    (J : System → String → SubscribeContextRequest → Prop) : Prop where
  unknown : ∀ {s m q}, Known s → s.request m = none → J s m q
  same : ∀ {s t m q}, SameFor m s t → J s m q → J t m q
  turn : ∀ {s main action request r}, A action → Known s → s.request r.2 = none →
    J s main request → J (turn cfg main action request s r) main request

def ForAll (J : System → String → SubscribeContextRequest → Prop) (s : System) : Prop :=
  Known s ∧ ∀ m q, s.request m = some q → q.subscriber.isInternal = false → J s m q

variable {A : Action → Prop} {J : System → String → SubscribeContextRequest → Prop}

theorem forAll_initial : ForAll J .initial :=
  ⟨known_initial, fun _ _ hget _ => by cases hget⟩

-- a subscription that the step has added is unknown before it
theorem Local.before (hJ : Local cfg A J) (h : ForAll J s)
    (hkeep : ∀ k, s.request k ≠ none → t.request k = s.request k) (hq : t.request m = some q)
    (hint : q.subscriber.isInternal = false) : J s m q := by
  cases hm : s.request m with
  | none => exact hJ.unknown h.1 hm
  | some q' =>
    rw [hkeep m (by simp [hm]), hm] at hq
    obtain rfl := Option.some.inj hq
    exact h.2 m q' hm hint

theorem Local.keeps_turn (hJ : Local cfg A J) (h : ForAll J s) (hmain : s.request main = some request)
    (hact : A action) (hs : turnStep cfg main action request s r = some t) : ForAll J t := by
  have hknown := (known_turnStep h.1 (by simp [hmain]) hs).1
  have hkeep := request_turnStep hs
  obtain ⟨hfresh, rfl⟩ := turn_of_turnStep hs
  refine ⟨hknown, fun m q hq hint => ?_⟩
  have hbefore := hJ.before h hkeep hq hint
  by_cases hm : m = main
  · subst hm
    rw [hkeep m (by simp [hmain]), hmain] at hq
    obtain rfl := Option.some.inj hq
    exact hJ.turn hact h.1 hfresh hbefore
  · exact hJ.same (sameFor_turn h.1 hfresh hm) hbefore

theorem Local.keeps_step {label : Label} (hJ : Local cfg A J) (h : ForAll J s)
    (hact : ∀ action, label.action = some action → A action)
    (hs : step cfg s label = some t) : ForAll J t := by
  cases label with
  | subscribe subID subReq =>
    refine ⟨known_step h.1 hs, fun m q hq hint => ?_⟩
    refine hJ.same (sameFor_subscribe h.1 hs ?_)
      (hJ.before h (fun k => request_of_step h.1 hs) hq hint)
    rintro rfl
    obtain ⟨-, rfl⟩ := subscribed_of_step h.1 hs
    obtain rfl : subReq = q := by
      simpa [System.request, withIndex, ThinBroker.putSubscription] using hq
    exact hint
  | notify main req sids =>
    obtain ⟨request, hn⟩ := notified_of_step h.1 hs
    refine (exec_invariant (P := fun u => ForAll J u ∧ u.request main = some request) hn.run
      ⟨h, hn.behind⟩ ?_).1
    intro u r v hu hv
    refine ⟨hJ.keeps_turn hu.1 hu.2 (hact _ rfl) hv, ?_⟩
    exact (known_turnStep hu.1.1 (by simp [hu.2]) hv).2.trans hu.2

theorem Local.keeps_run {labels : List Label} (hJ : Local cfg A J)
    (hact : ∀ label ∈ labels, ∀ action, label.action = some action → A action)
    (hrun : exec (step cfg) .initial labels = some s) : ForAll J s := by
  refine exec_induction (motive := fun _ u => ForAll J u) hrun forAll_initial ?_
  intro js label u v hp _ hu hv
  exact hJ.keeps_step hu (hact label (hp.subset (by simp))) hv

end PerSubscription

theorem external_of_log {cfg : Config} {labels : List Label} {s : System}
    (hrun : exec (step cfg) .initial labels = some s) :
    ∀ n ∈ s.log, ∃ request, s.request n.main = some request ∧
      request.subscriber.isInternal = false := by
  refine exec_induction (motive := fun _ u => ∀ n ∈ u.log, ∃ request,
    u.request n.main = some request ∧ request.subscriber.isInternal = false) hrun
    (fun n hn => by cases hn) ?_
  intro js label u v _ hu hall hv
  have hknown := known_exec hu
  have hkeep : ∀ n ∈ u.log, ∃ request, v.request n.main = some request ∧
      request.subscriber.isInternal = false := by
    intro n hn
    obtain ⟨request, hget, hexternal⟩ := hall n hn
    exact ⟨request, (request_of_step hknown hv (by simp [hget])).trans hget, hexternal⟩
  cases label with
  | subscribe subID subReq =>
    obtain ⟨-, rfl⟩ := subscribed_of_step hknown hv
    exact hkeep
  | notify main req sids =>
    obtain ⟨request, hn⟩ := notified_of_step hknown hv
    intro n hmem
    rw [hn.log] at hmem
    rcases List.mem_append.mp hmem with hold | hnew
    · exact hkeep n hold
    · rw [main_of_mem_namingsOf hnew]
      exact ⟨request, (request_of_step hknown hv (by simp [hn.behind])).trans hn.behind,
        hn.external⟩

def exampleConfig : Config := ⟨"http://broker", false⟩

def hosting (code : Int) (hosts : List (String × EntityId)) : NotifyContextAvailabilityRequest :=
  ⟨"availability", hosts.map (fun host => ⟨⟨[host.2], [], [], host.1⟩, ⟨200, "OK"⟩⟩),
    ⟨code, "OK"⟩⟩

def subscription (entities : List EntityId) : SubscribeContextRequest :=
  { SubscribeContextRequest.zero with entities := entities }

def byType (type : String) : SubscribeContextRequest := subscription [⟨type, true, ".*"⟩]

def car1 : EntityId := ⟨"Car", false, "car1"⟩

def car2 : EntityId := ⟨"Car", false, "car2"⟩

end FogFlow.Broker.Processing
