import FogFlow.Broker.Index
import FogFlow.Broker.Removal

namespace FogFlow.Broker.Repetition

open Ngsi Handler Execution Removal

def handledMessage (calls : Availability.System) (label : Availability.Label) :
    Option NotifyContextAvailabilityRequest :=
  match passed calls label, label with
  | some call, _ => some call.2
  | none, .arrive req => if req.isProsumerRegistration then some req else none
  | none, _ => none

def FreshAnswers (s : System) (req : NotifyContextAvailabilityRequest)
    (answers : Nat → Option String) : Prop :=
  ∀ i < req.contextRegistrationResponseList.length, ∀ sid ∈ answers i,
    s.subscriptions.get sid = none

instance (s : System) (req : NotifyContextAvailabilityRequest) (answers : Nat → Option String) :
    Decidable (FreshAnswers s req answers) :=
  inferInstanceAs (Decidable (∀ i < _, ∀ sid ∈ answers i, _))

-- the other brokers take a new uuid for every subscription
def step (cfg : Config) (s : System) : Label → Option System
  | .availability label answers =>
      if ∀ req ∈ handledMessage s.calls label, FreshAnswers s req answers then
        Removal.step cfg s (.availability label answers)
      else none
  | label => Removal.step cfg s label

-- to handle the message of the step a second time does not change the index
def Repeatable (cfg : Config) (s t : System) : Label → Prop
  | .availability label _ => ∀ answers,
      (runHandler cfg answers s.calls label t.broker).state.entityId2Subcriptions =
        t.entityId2Subcriptions
  | _ => True

def Stable (cfg : Config) (s : System) (label : Label) : Prop :=
  ∀ t, step cfg s label = some t → NoDup t.entityId2Subcriptions ∧ Repeatable cfg s t label

-- no creation is handled that names an entity for a by-ID subscription
def Checked (s : System) : Label → Prop
  | .availability label _ => ∀ call, passed s.calls label = some call → ∀ request,
      s.subscriptions.get call.1 = some request → request.isSimplyByType = false →
        actionOf call.2.errorCode.code = .create → s.e2subLocked = false →
          entitiesOf call.2 = []
  | _ => True

section Leaves

variable {cfg : Config} {answers : Nat → Option String} {action : Action} {isProsumer : Bool}
  {contextSubscription : Option SubscribeContextRequest} {mainSubID : String}
  {req : NotifyContextAvailabilityRequest} {tb : ThinBroker} {P : ThinBroker → Prop}
  {index : Index}

theorem leaves_handleRegistrations
    (hcontact : ∀ answer registration, Leaves P (contactProvider cfg action isProsumer
      contextSubscription mainSubID answer registration))
    (hsection : ∀ eid, Leaves P (seq lockE2sub (seq
      (associateEntity action isProsumer contextSubscription mainSubID eid) unlockE2sub)))
    (rs : List (ContextRegistrationResponse × Nat)) :
    Leaves P (each (fun registrationResp => handleRegistration cfg action isProsumer
      contextSubscription mainSubID (answers registrationResp.2)
      registrationResp.1.contextRegistration) rs) :=
  leaves_each (fun _ _ => leaves_seq (hcontact _ _) (leaves_each (fun eid _ => hsection eid)))

def LockedAt (index : Index) (tb : ThinBroker) : Prop :=
  tb.e2subLocked = true ∧ tb.entityId2Subcriptions = index

theorem locked_section (h : Handler ThinBroker) :
    Leaves (LockedAt index) (seq lockE2sub h) := by
  intro tb htb
  have hlock : lockE2sub tb = ⟨tb, .blocked⟩ := if_pos htb.1
  unfold seq
  rw [hlock]
  exact htb

theorem locked_contactProvider (answer : Option String) (registration : ContextRegistration) :
    Leaves (LockedAt index) (contactProvider cfg action isProsumer contextSubscription mainSubID
      answer registration) := by
  have hremote : ∀ entities, Leaves (LockedAt index)
      (subscribeRemote cfg action mainSubID answer registration entities) := by
    intro entities tb htb
    unfold subscribeRemote
    split_ifs
    · exact htb
    · cases answer <;> exact htb
  unfold contactProvider
  split_ifs
  · exact leaves_skip
  · exact hremote _
  · cases contextSubscription with
    | none => exact leaves_fault
    | some request => exact fun tb htb => hremote _ tb htb

theorem locked_handleNGSI9Notify (hlocked : tb.e2subLocked = true) :
    LockedAt tb.entityId2Subcriptions
      (handleNGSI9Notify cfg answers mainSubID req isProsumer tb).state :=
  leaves_seq leaves_logSubscription (leaves_handleRegistrations locked_contactProvider
    (fun _ => locked_section _) _) tb ⟨hlocked, rfl⟩

theorem locked_subscribeContext (subReq : SubscribeContextRequest) (subID : String) :
    Leaves (LockedAt index) (subscribeContext subReq subID) := by
  refine leaves_seq (fun tb htb => htb) ?_
  split_ifs
  · exact leaves_each (fun entity _ => locked_section _)
  · exact leaves_skip

theorem locked_handleProsumerRegistration (hlocked : tb.e2subLocked = true) :
    LockedAt tb.entityId2Subcriptions (handleProsumerRegistration cfg answers req tb).state :=
  leaves_seq (leaves_each (fun _ _ => leaves_each (fun request _ =>
      locked_subscribeContext request _)))
    (fun t ht => by rw [← ht.2]; exact locked_handleNGSI9Notify ht.1) tb ⟨hlocked, rfl⟩

end Leaves

-- what a message removes whose main subscription is gone, before the nil pointer is used
def removable (cfg : Config) (action : Action) : List ContextRegistration → List EntityId
  | [] => []
  | registration :: rest =>
      if registration.providingApplication = cfg.myURL ∧
          (action = .delete ∨ registration.entityIdList = []) then
        registration.entityIdList ++ removable cfg action rest
      else []

section Missing

variable {cfg : Config} {answers : Nat → Option String} {action : Action} {mainSubID : String}
  {req : NotifyContextAvailabilityRequest} {tb : ThinBroker} {index : Index} {answer : Option String}
  {registration : ContextRegistration}

def SubscriptionsAt (subscriptions : GoMap SubscribeContextRequest) (tb : ThinBroker) : Prop :=
  tb.subscriptions = subscriptions

def IndexAt (index : Index) (tb : ThinBroker) : Prop := tb.entityId2Subcriptions = index

theorem missing_contactProvider {P : ThinBroker → Prop} (answer : Option String)
    (registration : ContextRegistration) :
    Leaves P (contactProvider cfg action false none mainSubID answer registration) := by
  unfold contactProvider
  simp only [Bool.false_eq_true, if_false]
  split_ifs
  · exact leaves_skip
  · exact leaves_fault

theorem subscriptions_of_missing (hgone : tb.subscriptions.get mainSubID = none) :
    (handleNGSI9Notify cfg answers mainSubID req false tb).state.subscriptions =
      tb.subscriptions := by
  unfold handleNGSI9Notify
  simp only [hgone, Bool.false_eq_true, if_false]
  refine leaves_seq (P := SubscriptionsAt tb.subscriptions) leaves_logSubscription
    (leaves_handleRegistrations missing_contactProvider (fun eid => leaves_section
      (fun _ _ h => h) ?_) _) tb rfl
  generalize actionOf req.errorCode.code = action
  cases action with
  | delete => exact fun tb htb => htb
  | create | update => exact leaves_fault

theorem index_of_stopped (hstop : ¬ (registration.providingApplication = cfg.myURL ∧
    (action = .delete ∨ registration.entityIdList = []))) :
    (handleRegistration cfg action false none mainSubID answer registration tb).exit ≠ .done ∧
      (handleRegistration cfg action false none mainSubID answer registration
        tb).state.entityId2Subcriptions = tb.entityId2Subcriptions := by
  constructor
  · intro hd
    obtain ⟨howner, hall⟩ := registration_of_done hd
    refine hstop ⟨howner, or_iff_not_imp_right.mpr (fun hne => ?_)⟩
    obtain ⟨eid, heid⟩ := List.exists_mem_of_ne_nil _ hne
    exact hall eid heid
  · by_cases howner : registration.providingApplication = cfg.myURL
    · have hact : action ≠ .delete := fun hact => hstop ⟨howner, Or.inl hact⟩
      refine leaves_seq (P := IndexAt tb.entityId2Subcriptions) (missing_contactProvider _ _)
        (leaves_each (fun eid _ => leaves_section (fun _ _ h => h) ?_)) tb rfl
      cases action with
      | delete => exact absurd rfl hact
      | create | update => exact leaves_fault
    · have hcontact : contactProvider cfg action false none mainSubID answer registration tb =
          ⟨tb, .panicked⟩ := by
        rw [contactProvider, if_neg howner]
        rfl
      rw [handleRegistration, seq, hcontact]

theorem index_each_missing (rs : List (ContextRegistrationResponse × Nat)) (htb : Unlocked tb) :
    (each (fun registrationResp => handleRegistration cfg action false none mainSubID
      (answers registrationResp.2) registrationResp.1.contextRegistration) rs
      tb).state.entityId2Subcriptions = deleteAll mainSubID tb.entityId2Subcriptions
        (removable cfg action (rs.map (fun r => r.1.contextRegistration))) := by
  induction rs generalizing tb with
  | nil => rfl
  | cons r rs ih =>
    rw [List.map_cons, removable, each]
    split_ifs with hgo
    · have hlocal : handleRegistration cfg action false none mainSubID (answers r.2)
          r.1.contextRegistration tb =
          ⟨deleteEntities mainSubID tb r.1.contextRegistration.entityIdList, .done⟩ :=
        local_registration hgo.1 (fun eid heid =>
          hgo.2.resolve_right (List.ne_nil_of_mem heid)) htb
      have hrest : Unlocked (deleteEntities mainSubID tb r.1.contextRegistration.entityIdList) := htb
      rw [seq_of_done (by rw [hlocal]), hlocal]
      refine (ih hrest).trans ?_
      rw [deleteAll, deleteAll, List.foldl_append]
      rfl
    · have hstopped : (handleRegistration cfg action false none mainSubID (answers r.2)
          r.1.contextRegistration tb).exit ≠ .done ∧ _ := index_of_stopped hgo
      obtain ⟨hexit, hindex⟩ := hstopped
      unfold seq
      split
      · exact absurd ‹_› hexit
      · exact hindex

def goneOps (cfg : Config) (mainSubID : String) (req : NotifyContextAvailabilityRequest) :
    List IndexOp :=
  if cfg.debugEnabled then []
  else (removable cfg (actionOf req.errorCode.code) (req.contextRegistrationResponseList.map
    ContextRegistrationResponse.contextRegistration)).map (fun eid => .remove eid.id mainSubID)

theorem applyOps_removes (eids : List EntityId) :
    applyOps index (eids.map (fun eid => .remove eid.id mainSubID)) =
      deleteAll mainSubID index eids := by
  rw [applyOps, deleteAll, List.foldl_map]
  rfl

theorem index_of_missing (hgone : tb.subscriptions.get mainSubID = none) (htb : Unlocked tb) :
    (handleNGSI9Notify cfg answers mainSubID req false tb).state.entityId2Subcriptions =
      applyOps tb.entityId2Subcriptions (goneOps cfg mainSubID req) := by
  unfold handleNGSI9Notify goneOps
  simp only [hgone, Bool.false_eq_true, if_false]
  cases hdebug : cfg.debugEnabled with
  | true =>
    have hlog : logSubscription cfg false none tb = ⟨tb, .panicked⟩ := by
      simp [logSubscription, hdebug, askSimplyByType, fault]
    rw [seq, hlog]
    rfl
  | false =>
    have hlog : logSubscription cfg false none tb = ⟨tb, .done⟩ := by
      simp [logSubscription, hdebug, skip]
    rw [seq_of_done (by rw [hlog]), hlog, index_each_missing _ htb, if_neg Bool.false_ne_true,
      applyOps_removes]
    congr 2
    conv_rhs => rw [← List.zipIdx_map_fst 0 req.contextRegistrationResponseList]
    rw [List.map_map]
    rfl

end Missing

section Messages

variable {cfg : Config} {answers answers' : Nat → Option String} {action : Action}
  {mainSubID : String} {behind : Option SubscribeContextRequest}
  {req : NotifyContextAvailabilityRequest} {tb : ThinBroker} {index : Index}

def Append (action : Action) : Option SubscribeContextRequest → Prop
  | some request => action = .create ∧ request.isSimplyByType = false
  | none => False

theorem not_append (h : ¬ Append action behind) {eid : EntityId} (id subID : String) :
    .append id subID ∉ entityOps action behind mainSubID eid := by
  intro hmem
  cases action with
  | delete => exact absurd (List.mem_singleton.mp hmem) (by simp)
  | create | update =>
    cases behind with
    | none => exact absurd (List.mem_singleton.mp hmem) (by simp)
    | some request =>
      simp only [entityOps] at hmem
      split_ifs at hmem with hsimple
      · obtain ⟨w, -, hw⟩ := List.mem_map.mp hmem
        cases hw
      · first
          | exact h ⟨rfl, by simpa using hsimple⟩
          | exact absurd (List.mem_singleton.mp hmem) (by simp)

theorem consistent_entitiesOps {eids : List EntityId} (h : eids = [] ∨ ¬ Append action behind) :
    Consistent (entitiesOps action behind mainSubID eids) := by
  intro op hop
  have hnot : ¬ Append action behind := by
    refine h.resolve_left ?_
    rintro rfl
    cases hop
  have hdelete : (∃ id subID, op = .remove id subID) → action = .delete := by
    rintro ⟨id, subID, rfl⟩
    by_contra hact
    cases inserts_of_mem_entitiesOps hact hop
  cases op with
  | append id subID =>
    obtain ⟨eid, -, hmem⟩ := List.mem_flatMap.mp hop
    exact not_append hnot id subID hmem
  | add id subID =>
    intro hmem
    have hact : action = .delete := by
      by_contra hact
      cases inserts_of_mem_entitiesOps hact hmem
    subst hact
    obtain ⟨eid, -, heq⟩ := mem_entitiesOps_delete hop
    cases heq
  | remove id subID =>
    intro hmem
    obtain rfl := hdelete ⟨id, subID, rfl⟩
    obtain ⟨eid, -, heq⟩ := mem_entitiesOps_delete hmem
    cases heq

theorem consistent_goneOps : Consistent (goneOps cfg mainSubID req) := by
  unfold goneOps
  split_ifs
  · exact fun op hop => by cases hop
  · intro op hop
    obtain ⟨eid, -, rfl⟩ := List.mem_map.mp hop
    intro hmem
    obtain ⟨eid', -, heq⟩ := List.mem_map.mp hmem
    cases heq

def opsOf (cfg : Config) (mainSubID : String) (req : NotifyContextAvailabilityRequest) :
    Option SubscribeContextRequest → List IndexOp
  | some request =>
      entitiesOps (actionOf req.errorCode.code) (some request) mainSubID (entitiesOf req)
  | none => goneOps cfg mainSubID req

theorem index_handled (hbehind : tb.subscriptions.get mainSubID = behind) :
    (handleNGSI9Notify cfg answers mainSubID req false tb).state.entityId2Subcriptions =
      if tb.e2subLocked then tb.entityId2Subcriptions
      else applyOps tb.entityId2Subcriptions (opsOf cfg mainSubID req behind) := by
  split_ifs with hlocked
  · exact (locked_handleNGSI9Notify hlocked).2
  · have htb : Unlocked tb := by simpa [Unlocked] using hlocked
    cases behind with
    | none => exact index_of_missing hbehind htb
    | some request =>
      rw [handleNGSI9Notify_of_get htb hbehind, index_notified]
      rfl

theorem unlocked_handled {request : SubscribeContextRequest}
    (hbehind : tb.subscriptions.get mainSubID = some request) (htb : Unlocked tb) :
    Unlocked (handleNGSI9Notify cfg answers mainSubID req false tb).state :=
  unlocked_handleNGSI9Notify (Or.inr (by simp [hbehind])) htb

theorem behind_handled (hbehind : tb.subscriptions.get mainSubID = behind)
    (hfresh : ∀ i < req.contextRegistrationResponseList.length, ∀ sid ∈ answers i,
      tb.subscriptions.get sid = none) (htb : Unlocked tb) :
    (handleNGSI9Notify cfg answers mainSubID req false tb).state.subscriptions.get mainSubID =
      behind := by
  cases behind with
  | none => rw [subscriptions_of_missing hbehind, hbehind]
  | some request =>
    rw [handleNGSI9Notify_of_get htb hbehind, get_notified, hbehind]
    rintro i hi sid hsid rfl
    rw [hfresh i hi sid hsid] at hbehind
    cases hbehind

theorem count_appends (eids : List EntityId) (k : String) :
    ((applyOps index (eids.map (fun eid => .append eid.id mainSubID))).slice k).count mainSubID =
      (index.slice k).count mainSubID + eids.countP (fun eid => eid.id == k) := by
  induction eids generalizing index with
  | nil => rfl
  | cons eid eids ih =>
    rw [List.map_cons, applyOps_cons, List.countP_cons]
    refine ih.trans ?_
    rw [IndexOp.apply, slice_appendKey]
    by_cases hk : k = eid.id
    · simp [hk, List.count_append]
      omega
    · have hne : (eid.id == k) = false := beq_eq_false_iff_ne.mpr (Ne.symm hk)
      simp [hk, hne]

theorem entitiesOps_append {request : SubscribeContextRequest}
    (hsimple : request.isSimplyByType = false) (eids : List EntityId) :
    entitiesOps .create (some request) mainSubID eids =
      eids.map (fun eid => .append eid.id mainSubID) := by
  unfold entitiesOps
  induction eids with
  | nil => rfl
  | cons eid eids ih =>
    rw [List.flatMap_cons, ih, List.map_cons, entityOps, hsimple]
    rfl

theorem appended_twice {eids : List EntityId} (h : applyOps (applyOps index
    (eids.map (fun eid => .append eid.id mainSubID)))
      (eids.map (fun eid => .append eid.id mainSubID)) =
    applyOps index (eids.map (fun eid => .append eid.id mainSubID))) : eids = [] := by
  cases eids with
  | nil => rfl
  | cons eid eids =>
    have hcount := congrArg (fun index : Index => (index.slice eid.id).count mainSubID) h
    rw [count_appends (eid :: eids) eid.id, List.countP_cons,
      if_pos (beq_self_eq_true _)] at hcount
    omega

theorem consistent_opsOf (h : Append (actionOf req.errorCode.code) behind → entitiesOf req = []) :
    Consistent (opsOf cfg mainSubID req behind) := by
  cases behind with
  | none => exact consistent_goneOps
  | some request =>
    refine consistent_entitiesOps ?_
    by_cases happend : Append (actionOf req.errorCode.code) (some request)
    · exact Or.inl (h happend)
    · exact Or.inr happend

-- handling the message twice is stable exactly if nothing is appended unchecked
theorem handled_twice_iff (h : NoDup tb.entityId2Subcriptions)
    (hbehind : tb.subscriptions.get mainSubID = behind)
    (hfresh : ∀ i < req.contextRegistrationResponseList.length, ∀ sid ∈ answers i,
      tb.subscriptions.get sid = none) :
    (NoDup (handleNGSI9Notify cfg answers mainSubID req false tb).state.entityId2Subcriptions ∧
      ∀ answers', (handleNGSI9Notify cfg answers' mainSubID req false
        (handleNGSI9Notify cfg answers mainSubID req false tb).state).state.entityId2Subcriptions =
        (handleNGSI9Notify cfg answers mainSubID req false tb).state.entityId2Subcriptions) ↔
      (Append (actionOf req.errorCode.code) behind → tb.e2subLocked = false →
        entitiesOf req = []) := by
  cases hl : tb.e2subLocked with
  | true =>
    have hend : LockedAt _ (handleNGSI9Notify cfg answers mainSubID req false tb).state :=
      locked_handleNGSI9Notify hl
    obtain ⟨hlocked, hindex⟩ := hend
    refine iff_of_true ⟨?_, fun answers' => (locked_handleNGSI9Notify hlocked).2⟩ ?_
    · rw [hindex]
      exact h
    · exact fun _ hfalse => by cases hfalse
  | false =>
    have htb : Unlocked tb := hl
    have hindex : (handleNGSI9Notify cfg answers mainSubID req false
        tb).state.entityId2Subcriptions = _ := index_handled hbehind
    have hb : (handleNGSI9Notify cfg answers mainSubID req false tb).state.subscriptions.get
        mainSubID = behind := behind_handled hbehind hfresh htb
    have htwice : ∀ answers', (handleNGSI9Notify cfg answers' mainSubID req false
        (handleNGSI9Notify cfg answers mainSubID req false tb).state).state.entityId2Subcriptions =
        _ := fun answers' => index_handled hb
    have hunlocked : ∀ request, behind = some request →
        (handleNGSI9Notify cfg answers mainSubID req false tb).state.e2subLocked = false :=
      fun request hrequest => unlocked_handled (hbehind.trans hrequest) htb
    rw [hl, if_neg Bool.false_ne_true] at hindex
    revert hindex hb htwice hunlocked
    generalize handleNGSI9Notify cfg answers mainSubID req false tb = o
    intro hindex hb htwice hunlocked
    constructor
    · rintro ⟨-, hsame⟩ happend -
      cases behind with
      | none => exact happend.elim
      | some request =>
        have hagain := (htwice answers).symm.trans (hsame answers)
        rw [hunlocked request rfl, if_neg Bool.false_ne_true, hindex, opsOf, happend.1,
          entitiesOps_append happend.2] at hagain
        exact appended_twice hagain
    · intro hnone
      have hops : Consistent (opsOf cfg mainSubID req behind) :=
        consistent_opsOf (fun happend => hnone happend rfl)
      refine ⟨?_, fun answers' => ?_⟩
      · rw [hindex]
        exact noDup_applyOps h (fun id subID hmem => hops _ hmem)
      · rw [htwice answers', hindex, applyOps_twice h hops, ite_self]

-- a prosumer registration first subscribes the prosumer at the broker itself
def prosumerOps (cfg : Config) (req : NotifyContextAvailabilityRequest) : List IndexOp :=
  (req.contextRegistrationResponseList.flatMap (fun registrationResp =>
    (prosumerRequests cfg registrationResp.contextRegistration).flatMap (fun request =>
      ownOps request (genProsumerSubID req.subscriptionId)))) ++
    entitiesOps (actionOf req.errorCode.code) none req.subscriptionId (entitiesOf req)

def SubscribedAt (index : Index) (tb : ThinBroker) : Prop :=
  Unlocked tb ∧ tb.entityId2Subcriptions = index

theorem subscribed_each {α : Type} {f : α → Handler ThinBroker} {ops : α → List IndexOp}
    (hf : ∀ a index tb, SubscribedAt index tb → (f a tb).exit = .done ∧
      SubscribedAt (applyOps index (ops a)) (f a tb).state) (xs : List α)
    (htb : SubscribedAt index tb) : (each f xs tb).exit = .done ∧
      SubscribedAt (applyOps index (xs.flatMap ops)) (each f xs tb).state := by
  induction xs generalizing index tb with
  | nil => exact ⟨rfl, htb⟩
  | cons a xs ih =>
    obtain ⟨hdone, hstate⟩ := hf a index tb htb
    rw [each, seq_of_done hdone, List.flatMap_cons, applyOps_append]
    exact ih hstate

theorem subscribed_prosumer (htb : SubscribedAt index tb) :
    (handleProsumerRegistration cfg answers req tb).state.entityId2Subcriptions =
      applyOps index (prosumerOps cfg req) := by
  have hown : ∀ (subReq : SubscribeContextRequest) index tb, SubscribedAt index tb →
      (subscribeContext subReq (genProsumerSubID req.subscriptionId) tb).exit = .done ∧
      SubscribedAt (applyOps index (ownOps subReq (genProsumerSubID req.subscriptionId)))
        (subscribeContext subReq (genProsumerSubID req.subscriptionId) tb).state := by
    rintro subReq index tb ⟨hu, rfl⟩
    rw [subscribeContext_eq _ _ hu]
    exact ⟨rfl, hu, rfl⟩
  obtain ⟨hdone, hu, hindex⟩ := subscribed_each (f := fun registrationResp =>
    each (fun request => subscribeContext request (genProsumerSubID req.subscriptionId))
      (prosumerRequests cfg registrationResp.contextRegistration))
    (fun registrationResp index tb ht => subscribed_each hown
      (prosumerRequests cfg registrationResp.contextRegistration) ht)
    req.contextRegistrationResponseList htb
  rw [handleProsumerRegistration, seq_of_done hdone,
    handleNGSI9Notify_eq hu (if_pos rfl).symm (Option.isNone_none).symm, index_notified, hindex,
    prosumerOps, applyOps_append]

theorem genProsumerSubID_ne (subID : String) : genProsumerSubID subID ≠ subID := by
  intro heq
  have hlength := congrArg String.length heq
  simp [genProsumerSubID] at hlength

theorem consistent_prosumerOps : Consistent (prosumerOps cfg req) := by
  have hown : ∀ op, op ∈ req.contextRegistrationResponseList.flatMap (fun registrationResp =>
      (prosumerRequests cfg registrationResp.contextRegistration).flatMap (fun request =>
        ownOps request (genProsumerSubID req.subscriptionId))) →
      ∃ id, op = .add id (genProsumerSubID req.subscriptionId) := by
    intro op hop
    obtain ⟨registrationResp, -, hop⟩ := List.mem_flatMap.mp hop
    obtain ⟨request, -, hop⟩ := List.mem_flatMap.mp hop
    exact mem_ownOps hop
  have hrest : Consistent (entitiesOps (actionOf req.errorCode.code) none req.subscriptionId
      (entitiesOf req)) := consistent_entitiesOps (Or.inr (fun h => h.elim))
  have hne := genProsumerSubID_ne req.subscriptionId
  intro op hop
  rcases List.mem_append.mp hop with hop | hop
  · obtain ⟨id, rfl⟩ := hown op hop
    intro hmem
    rcases List.mem_append.mp hmem with hmem | hmem
    · obtain ⟨id', heq⟩ := hown _ hmem
      cases heq
    · exact hne (member_of_mem_entitiesOps hmem)
  · have hthis := hrest op hop
    have hmember := member_of_mem_entitiesOps hop
    cases op with
    | append id subID => exact hthis
    | add id subID =>
      intro hmem
      rcases List.mem_append.mp hmem with hmem | hmem
      · obtain ⟨id', heq⟩ := hown _ hmem
        cases heq
      · exact hthis hmem
    | remove id subID =>
      intro hmem
      rcases List.mem_append.mp hmem with hmem | hmem
      · obtain ⟨id', heq⟩ := hown _ hmem
        obtain ⟨-, rfl⟩ := IndexOp.add.inj heq
        exact hne hmember
      · exact hthis hmem

theorem prosumer_twice (h : NoDup tb.entityId2Subcriptions) :
    NoDup (handleProsumerRegistration cfg answers req tb).state.entityId2Subcriptions ∧
      ∀ answers', (handleProsumerRegistration cfg answers' req
        (handleProsumerRegistration cfg answers req tb).state).state.entityId2Subcriptions =
        (handleProsumerRegistration cfg answers req tb).state.entityId2Subcriptions := by
  cases hl : tb.e2subLocked with
  | true =>
    have hend : LockedAt _ (handleProsumerRegistration cfg answers req tb).state :=
      locked_handleProsumerRegistration hl
    obtain ⟨hlocked, hindex⟩ := hend
    refine ⟨?_, fun answers' => (locked_handleProsumerRegistration hlocked).2⟩
    rw [hindex]
    exact h
  | false =>
    have hindex : (handleProsumerRegistration cfg answers req tb).state.entityId2Subcriptions =
        applyOps tb.entityId2Subcriptions (prosumerOps cfg req) := subscribed_prosumer ⟨hl, rfl⟩
    have hu : Unlocked (handleProsumerRegistration cfg answers req tb).state :=
      unlocked_handleProsumerRegistration hl
    have hops : Consistent (prosumerOps cfg req) := consistent_prosumerOps
    refine ⟨?_, fun answers' => ?_⟩
    · rw [hindex]
      exact noDup_applyOps h (fun id subID hmem => hops _ hmem)
    · rw [subscribed_prosumer ⟨hu, rfl⟩, hindex, applyOps_twice h hops]

end Messages

section Steps

variable {cfg : Config} {s t : System} {label : Label}

theorem noDup_subscribeContext {tb : ThinBroker} (h : NoDup tb.entityId2Subcriptions)
    (subReq : SubscribeContextRequest) (subID : String) :
    NoDup (subscribeContext subReq subID tb).state.entityId2Subcriptions := by
  cases hl : tb.e2subLocked with
  | true =>
    rw [(locked_subscribeContext subReq subID tb ⟨hl, rfl⟩).2]
    exact h
  | false =>
    rw [subscribeContext_eq subReq subID hl]
    refine noDup_applyOps h (fun id sid hmem => ?_)
    obtain ⟨id', heq⟩ := mem_ownOps hmem
    cases heq

theorem stable_of_step (hs : step cfg s label = some t) :
    Stable cfg s label ↔ NoDup t.entityId2Subcriptions ∧ Repeatable cfg s t label := by
  constructor
  · exact fun h => h t hs
  · intro h u hu
    obtain rfl := Option.some.inj (hs.symm.trans hu)
    exact h

-- what one step of an availability call runs does not depend on the answers it gets
theorem runHandler_cases (cfg : Config) (calls : Availability.System)
    (label : Availability.Label) :
    (∃ call, passed calls label = some call ∧
      ∀ answers, runHandler cfg answers calls label =
        handleNGSI9Notify cfg answers call.1 call.2 false) ∨
    (passed calls label = none ∧ ∃ req, ∀ answers, runHandler cfg answers calls label =
      handleProsumerRegistration cfg answers req) ∨
    (passed calls label = none ∧ ∀ answers, runHandler cfg answers calls label = skip) := by
  unfold runHandler
  cases hp : passed calls label with
  | some call => exact Or.inl ⟨call, rfl, fun _ => rfl⟩
  | none =>
    refine Or.inr ?_
    cases label with
    | arrive req =>
      cases hprosumer : req.isProsumerRegistration with
      | true => exact Or.inl ⟨rfl, req, fun _ => if_pos hprosumer⟩
      | false => exact Or.inr ⟨rfl, fun _ => if_neg (by simp [hprosumer])⟩
    | _ => exact Or.inr ⟨rfl, fun _ => rfl⟩

theorem checked_iff {call : Availability.Call} {label : Availability.Label}
    {answers : Nat → Option String}
    (hp : passed s.calls label = some call) :
    Checked s (.availability label answers) ↔
      (Append (actionOf call.2.errorCode.code) (s.subscriptions.get call.1) →
        s.e2subLocked = false → entitiesOf call.2 = []) := by
  simp only [Checked, hp, Option.some.injEq, forall_eq']
  cases s.subscriptions.get call.1 with
  | none => exact iff_of_true (fun request hget => by cases hget) (fun happend => happend.elim)
  | some request =>
    constructor
    · rintro hall ⟨hact, hsimple⟩
      exact hall request rfl hsimple hact
    · rintro hall q hq hsimple hact
      obtain rfl := Option.some.inj hq
      exact hall ⟨hact, hsimple⟩

theorem availability_stable_iff {label : Availability.Label} {answers : Nat → Option String}
    (h : NoDup s.entityId2Subcriptions)
    (hs : step cfg s (.availability label answers) = some t) :
    NoDup t.entityId2Subcriptions ∧ Repeatable cfg s t (.availability label answers) ↔
      Checked s (.availability label answers) := by
  simp only [step] at hs
  split_ifs at hs with hfresh
  obtain ⟨after, -, rfl⟩ := availability_of_step hs
  rcases runHandler_cases cfg s.calls label with
    ⟨call, hp, hhandler⟩ | ⟨hp, req, hhandler⟩ | ⟨hp, hhandler⟩
  · have hanswers := hfresh call.2 (by simp [handledMessage, hp])
    have htwice : _ ↔ (Append (actionOf call.2.errorCode.code)
        (s.subscriptions.get call.1) → s.e2subLocked = false → entitiesOf call.2 = []) :=
      @handled_twice_iff cfg answers call.1 _ call.2 { s.broker with subLinks := after.links } h
        rfl hanswers
    simp only [Repeatable, hhandler]
    exact htwice.trans (checked_iff hp).symm
  · refine iff_of_true ?_ (fun call hcall => by cases hp.symm.trans hcall)
    simp only [Repeatable, hhandler]
    exact prosumer_twice h
  · refine iff_of_true ?_ (fun call hcall => by cases hp.symm.trans hcall)
    simp only [Repeatable, hhandler]
    exact ⟨h, fun _ => rfl⟩

theorem stable_iff_checked (h : NoDup s.entityId2Subcriptions) (hs : step cfg s label = some t) :
    Stable cfg s label ↔ Checked s label := by
  rw [stable_of_step hs]
  cases label with
  | subscribe subID subReq =>
    obtain rfl := Option.some.inj hs
    refine iff_of_true ⟨?_, trivial⟩ trivial
    have hnodup : NoDup (subscribeContext subReq subID s.broker).state.entityId2Subcriptions :=
      noDup_subscribeContext h subReq subID
    unfold subscribeStep
    dsimp only
    split_ifs <;> exact hnodup
  | unsubscribe fromBroker subID =>
    obtain rfl := Option.some.inj hs
    exact iff_of_true ⟨h, trivial⟩ trivial
  | delete sid =>
    obtain rfl := Option.some.inj hs
    refine iff_of_true ⟨?_, trivial⟩ trivial
    unfold deleteSubscription
    split_ifs <;> exact h
  | availability label answers => exact availability_stable_iff h hs

end Steps

theorem repeated_notifications_iff {cfg : Config} {labels : List Label} {s : System}
    (hrun : exec (step cfg) .initial labels = some s) :
    Meets (step cfg) (Stable cfg) .initial labels ↔ Meets (step cfg) Checked .initial labels :=
  meets_congr (P := fun s : System => NoDup s.entityId2Subcriptions) hrun
    (fun _ => List.nodup_nil) (fun _ _ _ h hs => stable_iff_checked h hs)
    (fun _ _ _ h hc hs => ((stable_of_step hs).mp ((stable_iff_checked h hs).mpr hc)).1)

def byId : SubscribeContextRequest :=
  { SubscribeContextRequest.zero with entities := [⟨"Car", false, "car1"⟩] }

def delivered (code : Int) : List Label :=
  [.availability (.arrive (ownNotify code)) noAnswers,
    .availability (.handle ("main", ownNotify code)) noAnswers]

def deliveredTwice (code : Int) : List Label :=
  [.subscribe "main" byId, .availability (.answer "main" "availability") noAnswers,
    .availability (.record "availability") noAnswers] ++ delivered code ++ delivered code

theorem updates_delivered_twice_stable :
    Meets (step exampleConfig) (Stable exampleConfig) .initial (deliveredTwice 301) := by
  have hrun : ∃ s, exec (step exampleConfig) .initial (deliveredTwice 301) = some s := ⟨_, rfl⟩
  obtain ⟨s, hs⟩ := hrun
  refine (repeated_notifications_iff hs).mpr ?_
  intro js label r hp _
  have hmem : label ∈ deliveredTwice 301 := hp.subset (by simp)
  simp only [deliveredTwice, delivered, List.cons_append, List.nil_append, List.mem_cons,
    List.not_mem_nil, or_false] at hmem
  rcases hmem with rfl | rfl | rfl | rfl | rfl | rfl | rfl
  · trivial
  all_goals
    intro call hcall request _ _ hcreate
    cases hcall
  all_goals exact absurd hcreate (by decide)

def AlwaysStable (cfg : Config) : Prop :=
  ∀ labels s, exec (step cfg) .initial labels = some s →
    Meets (step cfg) (Stable cfg) .initial labels

theorem creation_delivered_twice_duplicates : ¬ AlwaysStable exampleConfig := by
  intro h
  have hrun : ∃ t, exec (step exampleConfig) .initial (deliveredTwice 201) = some t ∧
      t.entityId2Subcriptions.slice "car1" = ["main", "main"] := ⟨_, rfl, by decide +kernel⟩
  obtain ⟨t, ht, hslice⟩ := hrun
  have hmeets := h _ t ht
  have hsplit : deliveredTwice 201 = (deliveredTwice 201).dropLast ++
      [.availability (.handle ("main", ownNotify 201)) noAnswers] := rfl
  rw [hsplit] at ht hmeets
  obtain ⟨s, hs, hlast⟩ := exec_concat.mp ht
  have hnodup := (((meets_concat hs).mp hmeets).2 t hlast).1 "car1"
  rw [hslice] at hnodup
  exact absurd hnodup (by decide)

end FogFlow.Broker.Repetition
