import FogFlow.Broker.Removal

namespace FogFlow.Broker.Cancellation

open Ngsi Handler Execution Removal

inductive CancelRequest where
  | availability (subscriptionId : String)
  | provider (otherSubID brokerURL : String)
deriving DecidableEq, Repr

-- the loop of NGSIV1_UnsubscribeContext over the other subscriptions, from an index on
def cancelOthers : Nat → GoMap SubscribeContextRequest → List String → List CancelRequest
  | _, _, [] => []
  | index, subscriptions, otherSubID :: rest =>
      (if index = 0 then [.availability otherSubID]
        else ((subscriptions.get otherSubID).map (fun subscription =>
          .provider otherSubID subscription.subscriber.brokerURL)).toList) ++
      cancelOthers (index + 1) (subscriptions.delete otherSubID) rest

def unsubscribeRequests (tb : ThinBroker) (subID : String) : List CancelRequest :=
  cancelOthers 0 tb.subscriptions (tb.subLinks.main2Other.slice subID)

-- the loop of deleteSubscription, which a missing subscription ends with a nil pointer
def cancelProviders (subscriptions : GoMap SubscribeContextRequest) :
    List String → List CancelRequest
  | [] => []
  | otherSubID :: rest =>
      match subscriptions.get otherSubID with
      | some subscription =>
          .provider otherSubID subscription.subscriber.brokerURL ::
            cancelProviders subscriptions rest
      | none => []

def deleteRequests (tb : ThinBroker) (sid : String) : List CancelRequest :=
  match tb.subLinks.main2Other.slice sid with
  | [] => []
  | first :: rest => .availability first :: cancelProviders tb.subscriptions rest

def afterUnsubscribe (s : System) (sid : String) : System :=
  .put (unsubscribeContext false sid s.broker).state s.calls

def afterDelete (s : System) (sid : String) : System :=
  .put (deleteSubscription sid s.broker).state s.calls

structure NoTrace (others : List String) (sid : String) (after : System) : Prop where
  subscription : after.subscriptions.get sid = none
  remote : ∀ other ∈ others, after.subscriptions.get other = none
  links : after.calls.links.main2Other.get sid = none
  availability : ∀ key, after.calls.links.availabilitySub2MainSub.get key ≠ some sid
  index : ∀ id, sid ∉ after.entityId2Subcriptions.slice id

structure CancelledOnce (before : System) (sid : String) (sent : List CancelRequest) : Prop where
  availability : ∀ subscriptionId, before.calls.issued.get subscriptionId = some sid →
    sent.count (.availability subscriptionId) = 1
  remote : ∀ other ∈ before.calls.links.main2Other.slice sid, before.calls.issued.get other = none →
    ∀ subscription, before.subscriptions.get other = some subscription →
      sent.count (.provider other subscription.subscriber.brokerURL) = 1

structure RemovesAll (s : System) (sid : String) : Prop where
  same : afterUnsubscribe s sid = afterDelete s sid
  ended : (deleteSubscription sid s.broker).exit = .done
  clean : NoTrace (s.calls.links.main2Other.slice sid) sid (afterUnsubscribe s sid)
  unsubscribed : CancelledOnce s sid (unsubscribeRequests s.broker sid)
  deleted : CancelledOnce s sid (deleteRequests s.broker sid)

-- the subscription has nothing but its entry in subscriptions
structure Untraced (s : System) (sid : String) : Prop where
  issued : ∀ subscriptionId, s.calls.issued.get subscriptionId ≠ some sid
  links : s.calls.links.main2Other.get sid = none
  availability : ∀ key, s.calls.links.availabilitySub2MainSub.get key ≠ some sid
  index : ∀ id, sid ∉ s.entityId2Subcriptions.slice id

variable {cfg : Config} {s t : System} {sid : String}

theorem slice_of_untraced (h : s.calls.links.main2Other.get sid = none) :
    s.calls.links.main2Other.slice sid = [] := by
  rw [GoMap.slice, h]
  rfl

theorem removesAll_of_untraced (h : Untraced s sid) : RemovesAll s sid := by
  have hothers : s.broker.subLinks.main2Other.slice sid = [] := slice_of_untraced h.links
  have hunsubscribe : unsubscribeContext false sid s.broker =
      ⟨{ s.broker with subscriptions := s.subscriptions.delete sid }, .done⟩ := by
    simp only [unsubscribeContext, Handler.modify, Bool.false_eq_true, if_false, hothers]
    rfl
  have hdelete : deleteSubscription sid s.broker =
      ⟨{ s.broker with subscriptions := s.subscriptions.delete sid }, .done⟩ := by
    simp only [deleteSubscription, hothers]
    rfl
  have honce : CancelledOnce s sid [] := by
    refine ⟨fun subscriptionId hissued => absurd hissued (h.issued subscriptionId), ?_⟩
    intro other hother
    rw [slice_of_untraced h.links] at hother
    cases hother
  refine ⟨?_, by rw [hdelete], ?_, ?_, ?_⟩
  · rw [afterUnsubscribe, afterDelete, hunsubscribe, hdelete]
  · rw [afterUnsubscribe, hunsubscribe]
    refine ⟨?_, ?_, h.links, h.availability, h.index⟩
    · dsimp only [System.put]
      rw [GoMap.get_delete, if_pos rfl]
    · intro other hother
      rw [slice_of_untraced h.links] at hother
      cases hother
  · rw [unsubscribeRequests, hothers]
    exact honce
  · rw [deleteRequests, hothers]
    exact honce

-- neither procedure touches the links or the index
theorem untraced_of_removesAll (h : RemovesAll s sid) : Untraced s sid := by
  have hlinks : s.calls.links.main2Other.get sid = none := h.clean.links
  have hothers : s.broker.subLinks.main2Other.slice sid = [] := slice_of_untraced hlinks
  refine ⟨fun subscriptionId hissued => ?_, hlinks, h.clean.availability, h.clean.index⟩
  have honce := h.unsubscribed.availability subscriptionId hissued
  rw [unsubscribeRequests, hothers] at honce
  cases honce

theorem removesAll_iff_untraced (s : System) (sid : String) : RemovesAll s sid ↔ Untraced s sid :=
  ⟨untraced_of_removesAll, removesAll_of_untraced⟩

-- the subscription of a client: neither a prosumer nor the broker itself has its id
structure External (labels : List Label) (sid : String) : Prop where
  client : ∀ subReq, .subscribe sid subReq ∈ labels → subReq.subscriber.isInternal = false
  prosumer : ∀ req answers, .availability (.arrive req) answers ∈ labels →
    req.isProsumerRegistration = true →
      genProsumerSubID req.subscriptionId ≠ sid ∧ req.subscriptionId ≠ sid

def Answered (labels : List Label) (sid : String) : Prop :=
  ∃ subscriptionId answers, .availability (.answer sid subscriptionId) answers ∈ labels

-- what the maps hold of a subscription besides its entry in subscriptions
structure Unlinked (sid : String) (tb : ThinBroker) : Prop where
  links : tb.subLinks.main2Other.get sid = none
  availability : ∀ key, tb.subLinks.availabilitySub2MainSub.get key ≠ some sid
  index : ∀ id, sid ∉ tb.entityId2Subcriptions.slice id

structure Unissued (sid : String) (calls : Availability.System) : Prop where
  issued : ∀ subscriptionId, calls.issued.get subscriptionId ≠ some sid
  answered : ∀ subscriptionId, (sid, subscriptionId) ∉ calls.answered
  forwarding : ∀ subscriptionId req, (subscriptionId, sid, req) ∉ calls.forwarding
  handling : ∀ req, (sid, req) ∉ calls.handling

section Handlers

variable {tb : ThinBroker} {subID mainSubID : String} {answers : Nat → Option String}
  {req : NotifyContextAvailabilityRequest} {isProsumer : Bool}

theorem keptFor_unlinked (hne : subID ≠ sid) : KeptFor (Unlinked sid) subID := by
  refine ⟨fun tb b h => ⟨h.links, h.availability, h.index⟩, fun id tb h => ?_, fun id tb h => ?_⟩
  · refine ⟨h.links, h.availability, fun k hk => ?_⟩
    simp only [appendToIndex, Handler.modify, GoMap.slice_set] at hk
    split_ifs at hk
    · rcases List.mem_append.mp hk with hold | hnew
      · exact h.index _ hold
      · exact hne (List.mem_singleton.mp hnew).symm
    · exact h.index _ hk
  · refine ⟨h.links, h.availability, fun k hk => ?_⟩
    have hindex : sid ∈ (deleteFromIndex tb.entityId2Subcriptions id subID).slice k := hk
    rw [slice_deleteFromIndex] at hindex
    split_ifs at hindex with heq
    · exact h.index id (List.mem_of_mem_erase hindex)
    · exact h.index k hindex

theorem unlinked_put (h : Unlinked sid tb) (request : SubscribeContextRequest) :
    Unlinked sid (tb.putSubscription subID request) :=
  ⟨h.links, h.availability, h.index⟩

theorem unlinked_addRemote (hne : mainSubID ≠ sid) (h : Unlinked sid tb) (other : String)
    (request : SubscribeContextRequest) : Unlinked sid (tb.addRemote mainSubID other request) := by
  refine ⟨?_, h.availability, h.index⟩
  simp only [ThinBroker.addRemote, SubLinks.addOther, GoMap.get_set]
  rw [if_neg hne.symm]
  exact h.links

theorem unlinked_handleNGSI9Notify (hne : mainSubID ≠ sid) :
    Leaves (Unlinked sid) (handleNGSI9Notify cfg answers mainSubID req isProsumer) :=
  (keptFor_unlinked hne).handleNGSI9Notify
    (fun _ _ _ other _ _ _ h => unlinked_addRemote hne h other _)

theorem unlinked_handleProsumerRegistration (hgen : genProsumerSubID req.subscriptionId ≠ sid)
    (hne : req.subscriptionId ≠ sid) :
    Leaves (Unlinked sid) (handleProsumerRegistration cfg answers req) :=
  leaves_seq (leaves_each (fun _ _ => leaves_each (fun request _ =>
    (keptFor_unlinked hgen).subscribeContext (fun _ h => unlinked_put h request))))
    (unlinked_handleNGSI9Notify hne)

end Handlers

section Calls

open Availability (record_links lookUp_linked lookUp_unlinked Call)

variable {calls after : Availability.System} {label : Availability.Label}

theorem issued_of_step {subscriptionId : String}
    (h : calls.issued.get subscriptionId = some sid)
    (hs : Availability.step calls label = some after) :
    after.issued.get subscriptionId = some sid := by
  cases label with
  | request k =>
    obtain rfl := Option.some.inj hs
    exact h
  | answer main k =>
    simp only [Availability.step, Availability.answer] at hs
    split_ifs at hs with hnew
    obtain ⟨taken, -, rfl⟩ := Option.map_eq_some_iff.mp hs
    dsimp only
    rw [GoMap.get_set, if_neg]
    · exact h
    · rintro rfl
      rw [hnew.1] at h
      cases h
  | record k =>
    obtain ⟨taken, -, rfl⟩ := Option.map_eq_some_iff.mp hs
    dsimp only
    split <;> exact h
  | arrive req =>
    simp only [Availability.step, Availability.arrive] at hs
    split_ifs at hs <;> obtain rfl := Option.some.inj hs <;> exact h
  | refuse k | forward k | clear k | handle k =>
    obtain ⟨taken, -, rfl⟩ := Option.map_eq_some_iff.mp hs
    exact h

theorem issued_of_answer {subscriptionId : String}
    (hs : Availability.step calls (.answer sid subscriptionId) = some after) :
    after.issued.get subscriptionId = some sid := by
  simp only [Availability.step, Availability.answer] at hs
  split_ifs at hs
  obtain ⟨taken, -, rfl⟩ := Option.map_eq_some_iff.mp hs
  dsimp only
  rw [GoMap.get_set, if_pos rfl]

-- only the answer of discovery brings the id into the calls in progress
theorem unissued_of_step {tb : ThinBroker} (hnew : ∀ k, label ≠ .answer sid k)
    (h : Unissued sid calls) (hlinks : Unlinked sid { tb with subLinks := calls.links })
    (hs : Availability.step calls label = some after) :
    Unissued sid after ∧ Unlinked sid { tb with subLinks := after.links } := by
  cases label with
  | request k =>
    obtain rfl := Option.some.inj hs
    exact ⟨⟨h.issued, h.answered, h.forwarding, h.handling⟩, hlinks⟩
  | refuse k =>
    obtain ⟨taken, -, rfl⟩ := Option.map_eq_some_iff.mp hs
    exact ⟨⟨h.issued, h.answered, h.forwarding, h.handling⟩, hlinks⟩
  | answer main k =>
    have hmain : main ≠ sid := fun heq => hnew k (by rw [heq])
    simp only [Availability.step, Availability.answer] at hs
    split_ifs at hs
    obtain ⟨taken, -, rfl⟩ := Option.map_eq_some_iff.mp hs
    refine ⟨⟨fun key hkey => ?_, fun key hkey => ?_, h.forwarding, h.handling⟩, hlinks⟩
    · dsimp only at hkey
      rw [GoMap.get_set] at hkey
      split_ifs at hkey
      · exact hmain (Option.some.inj hkey)
      · exact h.issued key hkey
    · rcases List.mem_cons.mp hkey with heq | hold
      · exact hmain (Prod.mk.inj heq).1.symm
      · exact h.answered key hold
  | record k =>
    obtain ⟨⟨⟨main, key⟩, rest⟩, htake, rfl⟩ := Option.map_eq_some_iff.mp hs
    have hmain : main ≠ sid := by
      rintro rfl
      exact h.answered key (Pool.mem_of_take htake)
    have hrecorded : Unlinked sid { tb with subLinks := (calls.links.record main k).1 } := by
      refine ⟨?_, fun other hother => ?_, hlinks.index⟩
      · simp only [SubLinks.record, SubLinks.addOther, GoMap.get_set]
        rw [if_neg hmain.symm]
        exact hlinks.links
      · rw [record_links] at hother
        split_ifs at hother
        · exact hmain (Option.some.inj hother)
        · exact hlinks.availability other hother
    have hrest : ∀ j, (sid, j) ∉ rest := fun j hj => h.answered j (Pool.mem_of_mem_rest htake hj)
    dsimp only
    split
    · refine ⟨⟨h.issued, hrest, fun j req hj => ?_, h.handling⟩, hrecorded⟩
      rcases List.mem_cons.mp hj with heq | hold
      · exact hmain (Prod.mk.inj (Prod.mk.inj heq).2).1.symm
      · exact h.forwarding j req hold
    · exact ⟨⟨h.issued, hrest, h.forwarding, h.handling⟩, hrecorded⟩
  | forward k =>
    obtain ⟨⟨call, rest⟩, htake, rfl⟩ := Option.map_eq_some_iff.mp hs
    exact ⟨⟨h.issued, h.answered, fun j req hj => h.forwarding j req
      (Pool.mem_of_mem_rest htake hj), h.handling⟩, hlinks⟩
  | clear k =>
    obtain ⟨taken, -, rfl⟩ := Option.map_eq_some_iff.mp hs
    exact ⟨⟨h.issued, h.answered, h.forwarding, h.handling⟩,
      ⟨hlinks.links, hlinks.availability, hlinks.index⟩⟩
  | arrive req =>
    simp only [Availability.step, Availability.arrive] at hs
    split_ifs at hs <;> obtain rfl := Option.some.inj hs
    · exact ⟨h, hlinks⟩
    cases hfound : calls.links.availabilitySub2MainSub.get req.subscriptionId with
    | some main =>
      rw [lookUp_linked hfound]
      refine ⟨⟨h.issued, h.answered, h.forwarding, fun r hr => ?_⟩, hlinks⟩
      rcases List.mem_cons.mp hr with heq | hold
      · obtain rfl := (Prod.mk.inj heq).1
        exact hlinks.availability _ hfound
      · exact h.handling r hold
    | none =>
      rw [lookUp_unlinked hfound]
      exact ⟨⟨h.issued, h.answered, h.forwarding, h.handling⟩,
        ⟨hlinks.links, hlinks.availability, hlinks.index⟩⟩
  | handle call =>
    obtain ⟨⟨taken, rest⟩, htake, rfl⟩ := Option.map_eq_some_iff.mp hs
    exact ⟨⟨h.issued, h.answered, h.forwarding, fun req hreq => h.handling req
      (Pool.mem_of_mem_rest htake hreq)⟩, hlinks⟩

theorem passed_unissued {call : Call} (h : Unissued sid calls)
    (hp : passed calls label = some call) (hs : Availability.step calls label = some after) :
    call.1 ≠ sid := by
  rintro rfl
  cases label with
  | forward k =>
    obtain ⟨⟨key, main⟩, hfound, rfl⟩ := Option.map_eq_some_iff.mp hp
    exact h.forwarding key main.2 (List.mem_of_find?_eq_some hfound)
  | handle other =>
    obtain rfl : other = call := Option.some.inj hp
    obtain ⟨⟨taken, rest⟩, htake, -⟩ := Option.map_eq_some_iff.mp hs
    have hsame : taken = other := by simpa using Pool.take_sat htake
    have hmem : other ∈ calls.handling := hsame ▸ Pool.mem_of_take htake
    exact h.handling other.2 hmem
  | _ => cases hp

end Calls

-- whichever message a step handles, it is for another subscription
theorem unlinked_runHandler {calls after : Availability.System} {label : Availability.Label}
    {answers : Nat → Option String} (hcalls : Unissued sid calls)
    (hs : Availability.step calls label = some after)
    (hprosumer : ∀ req, label = .arrive req → req.isProsumerRegistration = true →
      genProsumerSubID req.subscriptionId ≠ sid ∧ req.subscriptionId ≠ sid) :
    Leaves (Unlinked sid) (runHandler cfg answers calls label) := by
  unfold runHandler
  cases hp : passed calls label with
  | some call => exact unlinked_handleNGSI9Notify (passed_unissued hcalls hp hs)
  | none =>
    cases label with
    | arrive req =>
      dsimp only
      split_ifs with hreq
      · obtain ⟨hgen, hne⟩ := hprosumer req rfl hreq
        exact unlinked_handleProsumerRegistration hgen hne
      · exact leaves_skip
    | _ => exact leaves_skip

theorem unissued_withoutEnded {before after : Availability.System} {exit : Exit}
    (h : Unissued sid after) : Unissued sid (withoutEnded before after exit) := by
  cases exit <;> exact ⟨h.issued, h.answered, h.forwarding, h.handling⟩

theorem unissued_put {tb : ThinBroker} {calls : Availability.System} (h : Unissued sid calls) :
    Unissued sid (System.put tb calls).calls :=
  ⟨h.issued, h.answered, h.forwarding, h.handling⟩

theorem unanswered_step {label : Label} (hext : External [label] sid)
    (hnew : ¬ Answered [label] sid) (hcalls : Unissued sid s.calls)
    (hlinks : Unlinked sid s.broker) (hs : step cfg s label = some t) :
    Unissued sid t.calls ∧ Unlinked sid t.broker := by
  cases label with
  | subscribe subID subReq =>
    obtain rfl := Option.some.inj hs
    have hsub : Unlinked sid (subscribeContext subReq subID s.broker).state := by
      by_cases hown : subReq.subscriber.isInternal = true
      · have hne : subID ≠ sid := by
          rintro rfl
          rw [hext.client subReq List.mem_cons_self] at hown
          cases hown
        exact (keptFor_unlinked hne).subscribeContext (fun _ h => unlinked_put h subReq) _ hlinks
      · have hskip : subscribeContext subReq subID s.broker =
            ⟨s.broker.putSubscription subID subReq, .done⟩ := by
          rw [subscribeContext, if_neg hown]
          rfl
        rw [hskip]
        exact unlinked_put hlinks subReq
    unfold subscribeStep
    dsimp only
    split_ifs
    · exact ⟨unissued_put hcalls, hsub⟩
    · exact ⟨⟨hcalls.issued, hcalls.answered, hcalls.forwarding, hcalls.handling⟩, hsub⟩
  | unsubscribe fromBroker subID =>
    obtain rfl := Option.some.inj hs
    exact ⟨unissued_put hcalls, ⟨hlinks.links, hlinks.availability, hlinks.index⟩⟩
  | delete id =>
    obtain rfl := Option.some.inj hs
    refine ⟨unissued_put hcalls, ?_⟩
    unfold deleteSubscription
    split_ifs <;> exact ⟨hlinks.links, hlinks.availability, hlinks.index⟩
  | availability label answers =>
    obtain ⟨after, hafter, rfl⟩ := availability_of_step hs
    have hne : ∀ k, label ≠ .answer sid k := by
      rintro k rfl
      exact hnew ⟨k, answers, List.mem_cons_self⟩
    have hcurrent : Unlinked sid { s.broker with subLinks := s.calls.links } := hlinks
    obtain ⟨hcalls', hlinks'⟩ := unissued_of_step hne hcalls hcurrent hafter
    have hhandler : Leaves (Unlinked sid) (runHandler cfg answers s.calls label) :=
      unlinked_runHandler hcalls hafter (fun req heq hreq =>
        hext.prosumer req answers (by rw [heq]; exact List.mem_cons_self) hreq)
    exact ⟨unissued_put (unissued_withoutEnded hcalls'), hhandler _ hlinks'⟩

theorem issued_step {label : Label} {subscriptionId : String}
    (h : s.calls.issued.get subscriptionId = some sid) (hs : step cfg s label = some t) :
    t.calls.issued.get subscriptionId = some sid := by
  cases label with
  | subscribe subID subReq =>
    obtain rfl := Option.some.inj hs
    unfold subscribeStep
    dsimp only
    split_ifs <;> exact h
  | unsubscribe fromBroker subID | delete id =>
    obtain rfl := Option.some.inj hs
    exact h
  | availability label answers =>
    obtain ⟨after, hafter, rfl⟩ := availability_of_step hs
    have hissued := issued_of_step h hafter
    unfold withoutEnded
    split <;> exact hissued

theorem issued_of_answered {subscriptionId : String} {answers : Nat → Option String}
    (hs : step cfg s (.availability (.answer sid subscriptionId) answers) = some t) :
    t.calls.issued.get subscriptionId = some sid := by
  obtain ⟨after, hafter, rfl⟩ := availability_of_step hs
  have hissued := issued_of_answer hafter
  unfold withoutEnded
  split <;> exact hissued

theorem External.single {labels : List Label} {label : Label} (h : External labels sid)
    (hmem : label ∈ labels) : External [label] sid := by
  refine ⟨fun subReq hsub => h.client subReq ?_, fun req answers hreq => h.prosumer req answers ?_⟩
  · rw [List.mem_singleton.mp hsub]
    exact hmem
  · rw [List.mem_singleton.mp hreq]
    exact hmem

theorem answered_concat {labels : List Label} {label : Label} :
    Answered (labels ++ [label]) sid ↔ Answered labels sid ∨ Answered [label] sid := by
  simp only [Answered, List.mem_append, exists_or]

-- discovery's answer leaves an issued id for ever, and before it the maps know nothing of sid
theorem issued_or_unlinked {labels : List Label} (hext : External labels sid)
    (hrun : exec (step cfg) .initial labels = some s) :
    (Answered labels sid ∧ ∃ subscriptionId, s.calls.issued.get subscriptionId = some sid) ∨
      (¬ Answered labels sid ∧ Unissued sid s.calls ∧ Unlinked sid s.broker) := by
  refine exec_induction (motive := fun js s =>
    (Answered js sid ∧ ∃ subscriptionId, s.calls.issued.get subscriptionId = some sid) ∨
      (¬ Answered js sid ∧ Unissued sid s.calls ∧ Unlinked sid s.broker)) hrun ?_ ?_
  · refine Or.inr ⟨?_, ⟨?_, ?_, ?_, ?_⟩, ⟨?_, ?_, ?_⟩⟩ <;>
      simp [Answered, System.initial, Availability.System.initial, System.broker, SubLinks.empty]
  · intro js label r u hp _ ih hu
    rw [answered_concat]
    by_cases hnew : Answered [label] sid
    · obtain ⟨subscriptionId, answers, hmem⟩ := hnew
      have hlabel := List.mem_singleton.mp hmem
      subst hlabel
      exact Or.inl ⟨Or.inr ⟨subscriptionId, answers, hmem⟩, subscriptionId, issued_of_answered hu⟩
    · rcases ih with ⟨hold, subscriptionId, hissued⟩ | ⟨hold, hcalls, hlinks⟩
      · exact Or.inl ⟨Or.inl hold, subscriptionId, issued_step hissued hu⟩
      · have hlabel : External [label] sid := hext.single (hp.subset (by simp))
        exact Or.inr ⟨fun h => h.elim hold hnew, unanswered_step hlabel hnew hcalls hlinks hu⟩

theorem removal_complete_iff {labels : List Label} (hext : External labels sid)
    (hrun : exec (step cfg) .initial labels = some s) :
    RemovesAll s sid ↔ ¬ Answered labels sid := by
  rw [removesAll_iff_untraced]
  rcases issued_or_unlinked hext hrun with ⟨hanswered, key, hissued⟩ | ⟨hnone, hcalls, hlinks⟩
  · exact iff_of_false (fun h => h.issued key hissued) (fun h => h hanswered)
  · exact iff_of_true ⟨hcalls.issued, hlinks.links, hlinks.availability, hlinks.index⟩ hnone

theorem unanswered_removed : ∃ s, exec (step exampleConfig) .initial
    [.subscribe "main" (byType "Car")] = some s ∧ RemovesAll s "main" := by
  have hext : External [.subscribe "main" (byType "Car")] "main" := by
    refine ⟨fun subReq hmem => ?_, fun req answers hmem => ?_⟩
    · obtain ⟨-, rfl⟩ := Label.subscribe.inj (List.mem_singleton.mp hmem)
      rfl
    · cases List.mem_singleton.mp hmem
  have hrun : ∃ s, exec (step exampleConfig) .initial [.subscribe "main" (byType "Car")] = some s :=
    ⟨_, rfl⟩
  obtain ⟨s, hs⟩ := hrun
  refine ⟨s, hs, (removal_complete_iff hext hs).mpr ?_⟩
  rintro ⟨key, answers, hmem⟩
  cases List.mem_singleton.mp hmem

-- a car of another broker has become known, and that broker has taken the subscription
def carElsewhere : NotifyContextAvailabilityRequest :=
  ⟨"availability", [⟨⟨[⟨"Car", false, "car1"⟩], [], [], "http://other"⟩, ⟨200, "OK"⟩⟩],
    ⟨201, "OK"⟩⟩

def untilRemote : List Label :=
  [.subscribe "main" (byType "Car"), .availability (.answer "main" "availability") noAnswers,
    .availability (.record "availability") noAnswers,
    .availability (.arrive carElsewhere) noAnswers,
    .availability (.handle ("main", carElsewhere)) (fun _ => some "remote")]

theorem removal_leaves_traces : External untilRemote "main" ∧
    ∃ s, exec (step exampleConfig) .initial untilRemote = some s ∧
      ((afterUnsubscribe s "main").subscriptions.get "remote" = none ∧
        (afterDelete s "main").subscriptions.get "remote" ≠ none ∧
        (afterUnsubscribe s "main").calls.links.main2Other.get "main" =
          some ["availability", "remote"]) ∧ ¬ RemovesAll s "main" := by
  constructor
  · refine ⟨fun subReq hmem => ?_, fun req answers hmem => ?_⟩ <;>
      simp only [untilRemote, List.mem_cons, List.not_mem_nil, or_false] at hmem <;>
      rcases hmem with hmem | hmem | hmem | hmem | hmem <;> cases hmem
    · rfl
    · intro hreq
      cases hreq
  · have hrun : ∃ s, exec (step exampleConfig) .initial untilRemote = some s ∧
        (afterUnsubscribe s "main").subscriptions.get "remote" = none ∧
        ((afterDelete s "main").subscriptions.get "remote").isSome = true ∧
        (afterUnsubscribe s "main").calls.links.main2Other.get "main" =
          some ["availability", "remote"] := ⟨_, rfl, rfl, rfl, rfl⟩
    obtain ⟨s, hs, hunsubscribe, hdelete, hlinks⟩ := hrun
    refine ⟨s, hs, ⟨hunsubscribe, fun hnone => ?_, hlinks⟩, fun h => ?_⟩
    · rw [hnone] at hdelete
      cases hdelete
    · rw [h.clean.links] at hlinks
      cases hlinks

end FogFlow.Broker.Cancellation
