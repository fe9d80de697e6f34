import FogFlow.Discovery.Awareness

namespace FogFlow.Discovery

open Ngsi Loop Execution

-- every entity is registered with one type
structure Typed (typeOf : String → String) (s : System) : Prop where
  objects : ∀ address < s.fresh, (s.objects address).type = typeOf (s.objects address).id
  scans : ∀ address ∈ s.scans, address < s.fresh

def Label.Typed (typeOf : String → String) : Label → Prop
  | .update _ entity _ => entity.type = typeOf entity.id
  | _ => True

-- a message that no deletion has sent
structure Message (typeOf : String → String) (n : NotifyContextAvailabilityRequest) : Prop where
  provides : n.errorCode.code = 201 ∨ n.errorCode.code = 301
  ordinary : n.isProsumerRegistration = false
  entities : ∀ eid ∈ named n, ∃ response ∈ n.contextRegistrationResponseList,
    ⟨typeOf eid, false, eid⟩ ∈ response.contextRegistration.entityIdList

variable {math : FloatMath} {matchString : MatchString} {typeOf : String → String}
  {s t : System} {label : Label}

theorem ordinary_sendNotify (urlRank : String → Nat) (subID : String)
    (entityMap : GoMap (List EntityId)) (action : Action) :
    (sendNotify urlRank subID entityMap action).isProsumerRegistration = false := by
  simp [NotifyContextAvailabilityRequest.isProsumerRegistration, sendNotify]

theorem typed_init : Typed typeOf .init where
  objects _ h := absurd h (Nat.not_lt_zero _)
  scans _ h := absurd h List.not_mem_nil

theorem typed_updateEntity (hsound : Sound s) (h : Typed typeOf s) {attrRank : String → Nat}
    {entity : EntityId} {registration : ContextRegistration}
    (htype : entity.type = typeOf entity.id) :
    Typed typeOf (s.updateEntity attrRank entity registration) := by
  unfold System.updateEntity
  cases hget : s.ctxRegistrationList.get entity.id with
  | some address =>
    have hbelow := hsound.below entity.id address hget
    refine ⟨fun p hp => ?_, fun p hp => ?_⟩
    · by_cases hpa : p = address
      · subst hpa
        dsimp only
        rw [Function.update_self, updateExisting]
        dsimp only
        rw [hsound.owned entity.id p hget]
        split_ifs with hempty
        · exact htype
        · rw [h.objects p hbelow, hsound.owned entity.id p hget]
      · simpa [hpa] using h.objects p hp
    · rcases List.mem_append.mp hp with hp | hp
      · exact h.scans p hp
      · rw [List.mem_singleton.mp hp]
        exact hbelow
  | none =>
    refine ⟨fun p hp => ?_, fun p hp => ?_⟩
    · by_cases hpf : p = s.fresh
      · simpa [hpf, entityRegistration] using htype
      · simpa [hpf] using h.objects p (lt_of_le_of_ne (Nat.le_of_lt_succ hp) hpf)
    · rcases List.mem_append.mp hp with hp | hp
      · exact (h.scans p hp).trans (Nat.lt_succ_self _)
      · rw [List.mem_singleton.mp hp]
        exact Nat.lt_succ_self _

theorem typed_step (hsound : Sound s) (h : Typed typeOf s) (hlabel : label.Typed typeOf)
    (hs : step math matchString s label = some t) : Typed typeOf t := by
  cases label with
  | subscribe subID subReq =>
    obtain ⟨-, rfl⟩ := step_subscribe hs
    exact ⟨h.objects, h.scans⟩
  | query subID ranks =>
    obtain ⟨subReq, notifies, -, -, rfl⟩ := step_query hs
    exact ⟨h.objects, h.scans⟩
  | update attrRank entity registration =>
    obtain rfl := Option.some.inj hs
    exact typed_updateEntity hsound h hlabel
  | scan address ranks =>
    obtain ⟨notifies, -, rfl⟩ := step_scan hs
    exact ⟨h.objects, fun p hp => h.scans p (List.mem_of_mem_erase hp)⟩
  | retrieve eid =>
    rcases step_retrieve hs with rfl | ⟨address, -, rfl⟩
    · exact h
    · exact ⟨h.objects, h.scans⟩
  | announce eid address ranks =>
    obtain ⟨-, notifies, -, rfl⟩ := step_announce hs
    exact ⟨h.objects, h.scans⟩
  | remove eid =>
    obtain ⟨-, rfl⟩ := step_remove hs
    exact ⟨h.objects, h.scans⟩

theorem message_create (hsound : Sound s) (h : Typed typeOf s) {ranks : Ranks} {subID : String}
    {request : SubscribeContextAvailabilityRequest}
    {notifies : List NotifyContextAvailabilityRequest}
    (hcreate : handleSubscribeCtxAvailability math matchString ranks s.repository subID request =
      .ok notifies) {n : NotifyContextAvailabilityRequest} (hn : n ∈ notifies) :
    Message typeOf n := by
  obtain ⟨-, hcode, hnames⟩ := create_names hcreate hn
  refine ⟨.inl hcode, ?_, fun eid heid => ?_⟩
  · obtain ⟨nearby, candidates, chosen, -, -, -, rfl⟩ := handleSubscribeCtxAvailability_eq_ok hcreate
    split_ifs at hn
    · cases hn
    · rw [List.mem_singleton.mp hn]
      exact ordinary_sendNotify ..
  · obtain ⟨k, registration, hget, rfl, -, response, hresponse, -, hentity⟩ := hnames eid heid
    rw [get_repository, Option.map_eq_some_iff] at hget
    obtain ⟨address, haddress, rfl⟩ := hget
    refine ⟨response, hresponse, ?_⟩
    rw [← h.objects address (hsound.below k address haddress)]
    exact hentity

theorem message_update (h : Typed typeOf s) {address : Nat} (hbelow : address < s.fresh)
    (ranks : Ranks) (subID : String) :
    Message typeOf (notice ranks subID (s.objects address) .update) := by
  refine ⟨.inr rfl, ordinary_sendNotify .., fun eid heid => ?_⟩
  obtain rfl := mem_named_notice.mp heid
  have hreports : Reports (notice ranks subID (s.objects address) .update) (s.objects address) :=
    reports_notice
  obtain ⟨response, hresponse, -, hentity⟩ := hreports
  refine ⟨response, hresponse, ?_⟩
  rw [← h.objects address hbelow]
  exact hentity

-- what is sent in a step comes behind what has been sent before
theorem messages_step (hsound : Sound s) (h : Typed typeOf s) (hno : label.isDeletion = false)
    (hs : step math matchString s label = some t) :
    ∃ notifies, t.sent = s.sent ++ notifies ∧ ∀ n ∈ notifies, Message typeOf n := by
  have hnothing (hsame : t.sent = s.sent) :
      ∃ notifies, t.sent = s.sent ++ notifies ∧ ∀ n ∈ notifies, Message typeOf n :=
    ⟨[], by rw [hsame, List.append_nil], by simp⟩
  cases label with
  | subscribe subID subReq =>
    obtain ⟨-, rfl⟩ := step_subscribe hs
    exact hnothing rfl
  | query subID ranks =>
    obtain ⟨subReq, notifies, -, hcreate, rfl⟩ := step_query hs
    exact ⟨notifies, rfl, fun n hn => message_create hsound h hcreate hn⟩
  | update attrRank entity registration =>
    obtain rfl := Option.some.inj hs
    exact hnothing (updateEntity_others attrRank entity registration).2.2.2.2
  | scan address ranks =>
    have hmem : address ∈ s.scans := by
      simp only [step] at hs
      split_ifs at hs with hmem
      exact hmem
    obtain ⟨notifies, hnotify, rfl⟩ := step_scan hs
    refine ⟨notifies, rfl, fun n hn => ?_⟩
    obtain ⟨subID, request, -, -, rfl⟩ := (mem_notifySubscribers hnotify).mp hn
    exact message_update h (h.scans address hmem) ranks subID
  | retrieve eid => cases hno
  | announce eid address ranks => cases hno
  | remove eid => cases hno

theorem subscriptions_step {k : String} {request : SubscribeContextAvailabilityRequest}
    (hget : s.subscriptions.get k = some request) (hs : step math matchString s label = some t) :
    t.subscriptions.get k = some request := by
  cases label with
  | subscribe subID subReq =>
    obtain ⟨hnew, rfl⟩ := step_subscribe hs
    refine (GoMap.get_set_ne _ _ ?_).trans hget
    rintro rfl
    rw [hnew] at hget
    cases hget
  | query subID ranks =>
    obtain ⟨subReq, notifies, -, -, rfl⟩ := step_query hs
    exact hget
  | update attrRank entity registration =>
    obtain rfl := Option.some.inj hs
    rw [(updateEntity_others attrRank entity registration).1]
    exact hget
  | scan address ranks =>
    obtain ⟨notifies, -, rfl⟩ := step_scan hs
    exact hget
  | retrieve eid =>
    rcases step_retrieve hs with rfl | ⟨address, -, rfl⟩
    · exact hget
    · exact hget
  | announce eid address ranks =>
    obtain ⟨-, notifies, -, rfl⟩ := step_announce hs
    exact hget
  | remove eid =>
    obtain ⟨-, rfl⟩ := step_remove hs
    exact hget

theorem not_cutOff {labels : List Label} (hrun : exec (step math matchString) .init labels = some s)
    {k eid : String} {request : SubscribeContextAvailabilityRequest}
    (hget : s.subscriptions.get k = some request)
    (hnearby : getNearbyFilter request.restriction = .ok none) :
    ¬ CutOff math matchString labels k eid := by
  rintro ⟨before, after, ranks, r, asked, rfl, hbefore, hasked, n, candidates, chosen, c, hfilter, -⟩
  rw [exec_append, hbefore, Option.bind_some] at hrun
  have hkept := exec_invariant (P := fun u => u.subscriptions.get k = some asked) hrun hasked
    (fun _ _ _ h hs => subscriptions_step h hs)
  rw [hkept] at hget
  rw [Option.some.inj hget, hnearby] at hfilter
  cases hfilter

end FogFlow.Discovery
