import FogFlow.Discovery.FastDiscovery

namespace FogFlow.Discovery

open Ngsi Execution

def Label.isDeletion : Label → Bool
  | .retrieve _ => true
  | .announce .. => true
  | .remove _ => true
  | _ => false

def Named (s : System) (subID eid : String) : Prop :=
  ∃ n ∈ s.sent, n.subscriptionId = subID ∧ eid ∈ named n

variable (math : FloatMath) (matchString : MatchString)

-- the CREATE query of the subscription had more matches than the limit of its nearby scope
def CutOff (is : List Label) (subID eid : String) : Prop :=
  ∃ js ks ranks s request, is = js ++ .query subID ranks :: ks ∧
    exec (step math matchString) System.init js = some s ∧
    s.subscriptions.get subID = some request ∧
    LeftOut math matchString ranks s.repository request eid

def Covered (is : List Label) (s : System) (subID eid : String) : Prop :=
  Named s subID eid ∨ CutOff math matchString is subID eid ∨ subID ∈ s.queries ∨
    ∃ address, s.ctxRegistrationList.get eid = some address ∧ address ∈ s.scans

def AllCovered (is : List Label) (s : System) : Prop :=
  ∀ subID request eid registration, s.subscriptions.get subID = some request →
    s.repository.get eid = some registration → Matches math matchString registration request →
    Covered math matchString is s subID eid

variable {math matchString} {js : List Label} {s t : System}

theorem CutOff.concat {subID eid : String} {label : Label}
    (h : CutOff math matchString js subID eid) :
    CutOff math matchString (js ++ [label]) subID eid := by
  obtain ⟨before, after, ranks, r, request, rfl, hr⟩ := h
  exact ⟨before, after ++ [label], ranks, r, request, by simp, hr⟩

theorem Named.append {subID eid : String} {notifies : List NotifyContextAvailabilityRequest}
    (h : Named s subID eid) (hsent : t.sent = s.sent ++ notifies) : Named t subID eid := by
  obtain ⟨n, hn, hnamed⟩ := h
  exact ⟨n, by simp [hsent, hn], hnamed⟩

theorem allCovered_subscribe {subID : String} {subReq : SubscribeContextAvailabilityRequest}
    (hall : AllCovered math matchString js s)
    (hs : step math matchString s (.subscribe subID subReq) = some t) :
    AllCovered math matchString (js ++ [.subscribe subID subReq]) t := by
  obtain ⟨-, rfl⟩ := step_subscribe hs
  intro sid request eid registration hget hreg hmatch
  dsimp only at hget
  rw [GoMap.get_set] at hget
  split_ifs at hget with hsid
  · exact Or.inr (Or.inr (Or.inl (by simp [hsid])))
  · rcases hall sid request eid registration hget hreg hmatch with h | h | h | h
    · exact Or.inl h
    · exact Or.inr (Or.inl h.concat)
    · exact Or.inr (Or.inr (Or.inl (List.mem_append_left _ h)))
    · exact Or.inr (Or.inr (Or.inr h))

theorem allCovered_query {subID : String} {ranks : Ranks}
    (hjs : exec (step math matchString) System.init js = some s) (hsound : Sound s)
    (hall : AllCovered math matchString js s)
    (hs : step math matchString s (.query subID ranks) = some t) :
    AllCovered math matchString (js ++ [.query subID ranks]) t := by
  obtain ⟨subReq, notifies, hsub, hcreate, rfl⟩ := step_query hs
  intro sid request eid registration hget hreg hmatch
  rcases hall sid request eid registration hget hreg hmatch with h | h | h | h
  · exact Or.inl (h.append rfl)
  · exact Or.inr (Or.inl h.concat)
  · by_cases hsid : sid = subID
    · subst hsid
      obtain rfl : subReq = request := Option.some.inj (hsub.symm.trans hget)
      obtain rfl := hsound.id_of_repository hreg
      rcases create_covers hcreate hreg hmatch with ⟨n, hn, hid, hnamed⟩ | hcut
      · exact Or.inl ⟨n, List.mem_append_right _ hn, hid, hnamed⟩
      · exact Or.inr (Or.inl ⟨js, [], ranks, s, subReq, rfl, hjs, hsub, hcut⟩)
    · exact Or.inr (Or.inr (Or.inl ((List.mem_erase_of_ne hsid).mpr h)))
  · exact Or.inr (Or.inr (Or.inr h))

theorem allCovered_update {attrRank : String → Nat} {entity : EntityId}
    {registration : ContextRegistration} (hsound : Sound s)
    (hall : AllCovered math matchString js s) :
    AllCovered math matchString (js ++ [.update attrRank entity registration])
      (s.updateEntity attrRank entity registration) := by
  obtain ⟨address, haddress, hscans⟩ :=
    scan_of_updateEntity (s := s) attrRank entity registration
  obtain ⟨hsubs, hqueries, -, -, hsent⟩ :=
    updateEntity_others (s := s) attrRank entity registration
  intro sid request eid stored hget hreg hmatch
  by_cases heid : eid = entity.id
  · subst heid
    exact Or.inr (Or.inr (Or.inr ⟨address, haddress, by simp [hscans]⟩))
  · rw [hsubs] at hget
    rw [repository_updateEntity_ne hsound heid] at hreg
    rcases hall sid request eid stored hget hreg hmatch with h | h | h | ⟨p, hp, hmem⟩
    · exact Or.inl (h.append (by rw [hsent, List.append_nil]))
    · exact Or.inr (Or.inl h.concat)
    · exact Or.inr (Or.inr (Or.inl (by rwa [hqueries])))
    · refine Or.inr (Or.inr (Or.inr ⟨p, (get_updateEntity_ne heid).trans hp, ?_⟩))
      rw [hscans]
      exact List.mem_append_left _ hmem

theorem allCovered_scan {address : Nat} {ranks : Ranks} (hsound : Sound s)
    (hall : AllCovered math matchString js s)
    (hs : step math matchString s (.scan address ranks) = some t) :
    AllCovered math matchString (js ++ [.scan address ranks]) t := by
  obtain ⟨notifies, hnotify, rfl⟩ := step_scan hs
  intro sid request eid registration hget hreg hmatch
  rcases hall sid request eid registration hget hreg hmatch with h | h | h | ⟨p, hp, hmem⟩
  · exact Or.inl (h.append rfl)
  · exact Or.inr (Or.inl h.concat)
  · exact Or.inr (Or.inr (Or.inl h))
  · by_cases hpa : p = address
    · subst hpa
      have hobject : registration = s.objects p := by
        have hget := hreg
        rw [get_repository, hp] at hget
        exact (Option.some.inj hget).symm
      subst hobject
      have hn := (mem_notifySubscribers hnotify).mpr ⟨sid, request, hget, hmatch, rfl⟩
      refine Or.inl ⟨_, List.mem_append_right _ hn, rfl, mem_named_notice.mpr ?_⟩
      exact (hsound.owned eid p hp).symm
    · exact Or.inr (Or.inr (Or.inr ⟨p, hp, (List.mem_erase_of_ne hpa).mpr hmem⟩))

theorem allCovered_run {is : List Label} (hno : ∀ label ∈ is, label.isDeletion = false)
    (hrun : exec (step math matchString) System.init is = some s) :
    AllCovered math matchString is s := by
  have key : Sound s ∧ AllCovered math matchString is s := by
    refine exec_induction (motive := fun js s => Sound s ∧ AllCovered math matchString js s) hrun
      ⟨sound_init, ?_⟩ ?_
    · intro subID request eid registration hget
      simp [System.init] at hget
    · intro js label r t hp hjs hr hs
      obtain ⟨hsound, hall⟩ := hr
      refine ⟨sound_step hsound hs, ?_⟩
      have hlabel := hno label (hp.subset (by simp))
      cases label with
      | subscribe subID subReq => exact allCovered_subscribe hall hs
      | query subID ranks => exact allCovered_query hjs hsound hall hs
      | update attrRank entity registration =>
        obtain rfl := Option.some.inj hs
        exact allCovered_update hsound hall
      | scan address ranks => exact allCovered_scan hsound hall hs
      | retrieve eid => cases hlabel
      | announce eid address ranks => cases hlabel
      | remove eid => cases hlabel
  exact key.2

theorem matching_named {is : List Label} (hno : ∀ label ∈ is, label.isDeletion = false)
    (hrun : exec (step math matchString) System.init is = some s) (hquiet : s.Quiet)
    {subID : String} {request : SubscribeContextAvailabilityRequest}
    (hsub : s.subscriptions.get subID = some request) {eid : String}
    {registration : EntityRegistration} (hreg : s.repository.get eid = some registration)
    (hmatch : Matches math matchString registration request) :
    Named s subID eid ∨ CutOff math matchString is subID eid := by
  obtain ⟨hqueries, hscans, -, -⟩ := hquiet
  rcases allCovered_run hno hrun subID request eid registration hsub hreg hmatch with
    h | h | h | ⟨address, -, h⟩
  · exact Or.inl h
  · exact Or.inr h
  · rw [hqueries] at h
    cases h
  · rw [hscans] at h
    cases h

def roomId (id : String) : EntityId := ⟨"Room", false, id⟩

def roomAt (attributes : List String) : ContextRegistration :=
  ⟨[], attributes.map (fun name => ⟨name, "", false⟩), [], "http://broker"⟩

def roomRequest (ids attributes : List String) (scopes : List OperationScope) :
    SubscribeContextAvailabilityRequest :=
  ⟨ids.map roomId, attributes, "http://subscriber", "", ⟨scopes, .null, "", "", ""⟩⟩

def anyOrder : Ranks := ⟨fun _ => 0, fun _ _ _ _ => 0, fun _ => 0⟩

def overlapRun : List Label :=
  [.update (fun _ => 0) (roomId "Room.1") (roomAt []),
    .subscribe "sub" (roomRequest ["Room.1"] [] []), .query "sub" anyOrder, .scan 0 anyOrder]

def nearbyRequest : SubscribeContextAvailabilityRequest :=
  roomRequest ["Room.1", "Room.2"] [] [⟨"nearby", .nearBy ⟨0, 0, 1⟩⟩]

def nearbyRun : List Label :=
  [.update (fun _ => 0) (roomId "Room.1") (roomAt []), .scan 0 anyOrder,
    .update (fun _ => 0) (roomId "Room.2") (roomAt []), .scan 1 anyOrder,
    .subscribe "sub" nearbyRequest, .query "sub" anyOrder]

def exampleStep : System → Label → Option System := step exampleMath (fun _ _ => false)

instance (s : System) : Decidable s.Quiet :=
  inferInstanceAs (Decidable (_ ∧ _ ∧ _ ∧ _))

instance (s : System) (subID eid : String) : Decidable (Named s subID eid) :=
  inferInstanceAs (Decidable (∃ n ∈ s.sent, _))

theorem nearby_room_not_named :
    ∃ s, exec exampleStep System.init nearbyRun = some s ∧ s.Quiet ∧
      (∀ label ∈ nearbyRun, label.isDeletion = false) ∧
      s.subscriptions.get "sub" = some nearbyRequest ∧
      (∃ registration, s.repository.get "Room.1" = some registration ∧
        Matches exampleMath (fun _ _ => false) registration nearbyRequest) ∧
      (∃ registration, s.repository.get "Room.2" = some registration ∧
        Matches exampleMath (fun _ _ => false) registration nearbyRequest) ∧
      ¬ (Named s "sub" "Room.1" ∧ Named s "sub" "Room.2") :=
  ⟨_, rfl, by decide, by decide, rfl, ⟨_, rfl, fun _ _ _ => 0, rfl⟩, ⟨_, rfl, fun _ _ _ => 0, rfl⟩,
    by decide⟩

theorem overlap_named :
    ∃ s, exec exampleStep System.init overlapRun = some s ∧
      (Named s "sub" "Room.1" ∨ CutOff exampleMath (fun _ _ => false) overlapRun "sub" "Room.1") := by
  have hrun : ∃ s, exec exampleStep System.init overlapRun = some s ∧ s.Quiet ∧
      s.subscriptions.get "sub" = some (roomRequest ["Room.1"] [] []) ∧
      ∃ registration, s.repository.get "Room.1" = some registration ∧
        Matches exampleMath (fun _ _ => false) registration (roomRequest ["Room.1"] [] []) :=
    ⟨_, rfl, by decide, rfl, _, rfl, fun _ _ _ => 0, rfl⟩
  obtain ⟨s, hs, hquiet, hsub, registration, hreg, hmatch⟩ := hrun
  exact ⟨s, hs, matching_named (by decide) hs hquiet hsub hreg hmatch⟩

end FogFlow.Discovery
