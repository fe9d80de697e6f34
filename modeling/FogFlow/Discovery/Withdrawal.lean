import FogFlow.Discovery.Awareness

namespace FogFlow.Discovery

open Ngsi Execution

-- a subscriber adds what a CREATE or an UPDATE names and removes what a DELETE names
def received (subID : String) (view : List String) (n : NotifyContextAvailabilityRequest) :
    List String :=
  if n.subscriptionId = subID then
    if n.errorCode.code = 410 then view.filter (fun eid => decide (eid ∉ named n))
    else view ++ named n
  else view

def viewOf (subID : String) (sent : List NotifyContextAvailabilityRequest) : List String :=
  sent.foldl (received subID) []

variable (math : FloatMath) (matchString : MatchString)

def Registered (s : System) (eid : String) (request : SubscribeContextAvailabilityRequest) : Prop :=
  ∃ registration, s.repository.get eid = some registration ∧
    Matches math matchString registration request

-- no view holds an entity that is not registered and matching
def Fresh (s : System) : Prop :=
  ∀ subID request eid, s.subscriptions.get subID = some request → eid ∈ viewOf subID s.sent →
    Registered math matchString s eid request

def Withdraws (s : System) : Label → Prop
  | .subscribe .. => True
  | .query subID _ => ∀ request, s.subscriptions.get subID = some request →
      ∀ eid ∈ s.announced, ¬ Registered math matchString s eid request
  | .update attrRank entity registration =>
      ∀ subID request, s.subscriptions.get subID = some request →
        entity.id ∈ viewOf subID s.sent →
        Registered math matchString (s.updateEntity attrRank entity registration) entity.id request
  | .scan address _ =>
      ∀ subID request, s.subscriptions.get subID = some request →
        Matches math matchString (s.objects address) request →
        s.ctxRegistrationList.get (s.objects address).id = some address ∧
          (s.objects address).id ∉ s.announced
  | .retrieve _ => True
  | .announce eid address _ =>
      ∀ subID request, s.subscriptions.get subID = some request → eid ∈ viewOf subID s.sent →
        Matches math matchString (s.objects address) request
  | .remove _ => True

variable {math matchString} {s t : System}

theorem mem_viewOf_append {subID eid : String}
    {sent notifies : List NotifyContextAvailabilityRequest}
    (h : eid ∈ viewOf subID (sent ++ notifies)) :
    (∃ n ∈ notifies, n.subscriptionId = subID ∧ n.errorCode.code ≠ 410 ∧ eid ∈ named n) ∨
      (eid ∈ viewOf subID sent ∧
        ∀ n ∈ notifies, n.subscriptionId = subID → n.errorCode.code = 410 → eid ∉ named n) := by
  induction notifies using List.reverseRecOn with
  | nil => exact Or.inr ⟨by simpa using h, by simp⟩
  | append_singleton notifies n ih =>
    rw [← List.append_assoc, viewOf, List.foldl_append, List.foldl_cons, List.foldl_nil] at h
    have hview : eid ∈ viewOf subID (sent ++ notifies) →
        (n.subscriptionId = subID → n.errorCode.code = 410 → eid ∉ named n) →
        (∃ m ∈ notifies ++ [n], m.subscriptionId = subID ∧ m.errorCode.code ≠ 410 ∧
          eid ∈ named m) ∨
        (eid ∈ viewOf subID sent ∧ ∀ m ∈ notifies ++ [n], m.subscriptionId = subID →
          m.errorCode.code = 410 → eid ∉ named m) := by
      intro hold hn
      rcases ih hold with ⟨m, hm, hrest⟩ | ⟨hsent, hall⟩
      · exact Or.inl ⟨m, List.mem_append_left _ hm, hrest⟩
      · refine Or.inr ⟨hsent, fun m hm => ?_⟩
        rcases List.mem_append.mp hm with hm | hm
        · exact hall m hm
        · rw [List.mem_singleton.mp hm]
          exact hn
    unfold received at h
    split_ifs at h with hid hcode
    · obtain ⟨hold, hnot⟩ := List.mem_filter.mp h
      exact hview hold (fun _ _ => of_decide_eq_true hnot)
    · rcases List.mem_append.mp h with hold | hnamed
      · exact hview hold (fun _ hcode' => absurd hcode' hcode)
      · exact Or.inl ⟨n, by simp, hid, hcode, hnamed⟩
    · exact hview h (fun hid' => absurd hid' hid)

variable (math matchString) in
-- what a subscriber holds is registered, matches and is not about to be removed
structure Current (s : System) : Prop where
  sound : Sound s
  held : ∀ subID eid, eid ∈ viewOf subID s.sent → eid ∉ s.announced ∧
    ∃ request, s.subscriptions.get subID = some request ∧
      Registered math matchString s eid request

theorem current_init : Current math matchString System.init :=
  ⟨sound_init, by simp [System.init, viewOf]⟩

theorem Current.fresh (h : Current math matchString s) : Fresh math matchString s := by
  intro subID request eid hget hview
  obtain ⟨-, request', hget', hreg⟩ := h.held subID eid hview
  rwa [Option.some.inj (hget.symm.trans hget')]

theorem current_subscribe (h : Current math matchString s) {subID : String}
    {subReq : SubscribeContextAvailabilityRequest}
    (hs : step math matchString s (.subscribe subID subReq) = some t) :
    Current math matchString t := by
  refine ⟨sound_step h.sound hs, ?_⟩
  obtain ⟨hnew, rfl⟩ := step_subscribe hs
  intro sid eid hview
  obtain ⟨hann, request, hget, hreg⟩ := h.held sid eid hview
  have hne : sid ≠ subID := by
    rintro rfl
    rw [hnew] at hget
    cases hget
  exact ⟨hann, request, (GoMap.get_set_ne _ _ hne).trans hget, hreg⟩

theorem current_query (h : Current math matchString s) {subID : String} {ranks : Ranks}
    (hsafe : Withdraws math matchString s (.query subID ranks))
    (hs : step math matchString s (.query subID ranks) = some t) :
    Current math matchString t := by
  refine ⟨sound_step h.sound hs, ?_⟩
  obtain ⟨subReq, notifies, hsub, hcreate, rfl⟩ := step_query hs
  intro sid eid hview
  rcases mem_viewOf_append hview with ⟨n, hn, rfl, -, hnamed⟩ | ⟨hold, -⟩
  · obtain ⟨hid, -, hnames⟩ := create_names hcreate hn
    obtain ⟨k, registration, hget, rfl, hmatch, -⟩ := hnames eid hnamed
    obtain rfl := h.sound.id_of_repository hget
    have hreg : Registered math matchString s registration.id subReq := ⟨registration, hget, hmatch⟩
    exact ⟨fun hann => hsafe subReq hsub _ hann hreg, subReq, by rw [hid]; exact hsub, hreg⟩
  · exact h.held sid eid hold

theorem current_update (h : Current math matchString s) {attrRank : String → Nat}
    {entity : EntityId} {registration : ContextRegistration}
    (hsafe : Withdraws math matchString s (.update attrRank entity registration)) :
    Current math matchString (s.updateEntity attrRank entity registration) := by
  obtain ⟨hsubs, -, -, hannounced, hsent⟩ :=
    updateEntity_others (s := s) attrRank entity registration
  refine ⟨sound_updateEntity h.sound, ?_⟩
  rw [hsent, hsubs, hannounced]
  intro sid eid hview
  obtain ⟨hann, request, hget, stored, hreg, hmatch⟩ := h.held sid eid hview
  refine ⟨hann, request, hget, ?_⟩
  by_cases heid : eid = entity.id
  · subst heid
    exact hsafe sid request hget hview
  · exact ⟨stored, (repository_updateEntity_ne h.sound heid).trans hreg, hmatch⟩

theorem current_scan (h : Current math matchString s) {address : Nat} {ranks : Ranks}
    (hsafe : Withdraws math matchString s (.scan address ranks))
    (hs : step math matchString s (.scan address ranks) = some t) :
    Current math matchString t := by
  refine ⟨sound_step h.sound hs, ?_⟩
  obtain ⟨notifies, hnotify, rfl⟩ := step_scan hs
  intro sid eid hview
  rcases mem_viewOf_append hview with ⟨n, hn, rfl, -, hnamed⟩ | ⟨hold, -⟩
  · obtain ⟨subID, request, hget, hmatch, rfl⟩ := (mem_notifySubscribers hnotify).mp hn
    obtain rfl := mem_named_notice.mp hnamed
    obtain ⟨hcurrent, hann⟩ := hsafe subID request hget hmatch
    refine ⟨hann, request, hget, s.objects address, ?_, hmatch⟩
    exact get_repository.trans (by rw [hcurrent]; rfl)
  · exact h.held sid eid hold

theorem current_announce (h : Current math matchString s) {eid : String} {address : Nat}
    {ranks : Ranks} (hsafe : Withdraws math matchString s (.announce eid address ranks))
    (hs : step math matchString s (.announce eid address ranks) = some t) :
    Current math matchString t := by
  refine ⟨sound_step h.sound hs, ?_⟩
  obtain ⟨hmem, notifies, hnotify, rfl⟩ := step_announce hs
  intro sid e hview
  rcases mem_viewOf_append hview with ⟨n, hn, -, hcode, -⟩ | ⟨hold, hno⟩
  · obtain ⟨subID, request, -, -, rfl⟩ := (mem_notifySubscribers hnotify).mp hn
    exact absurd rfl hcode
  · obtain ⟨hann, request, hget, hreg⟩ := h.held sid e hold
    refine ⟨fun hmem' => ?_, request, hget, hreg⟩
    rcases List.mem_append.mp hmem' with hmem' | hmem'
    · exact hann hmem'
    · -- the subscriber matches what the deletion scans, so it has been sent a DELETE
      obtain rfl := List.mem_singleton.mp hmem'
      have hn := (mem_notifySubscribers hnotify).mpr
        ⟨sid, request, hget, hsafe sid request hget hold, rfl⟩
      exact hno _ hn rfl rfl (mem_named_notice.mpr (h.sound.held _ hmem).2.symm)

theorem current_remove (h : Current math matchString s) {eid : String}
    (hs : step math matchString s (.remove eid) = some t) : Current math matchString t := by
  refine ⟨sound_step h.sound hs, ?_⟩
  obtain ⟨hmem, rfl⟩ := step_remove hs
  intro sid e hview
  obtain ⟨hann, request, hget, registration, hreg, hmatch⟩ := h.held sid e hview
  have hne : e ≠ eid := fun heq => hann (heq ▸ hmem)
  refine ⟨fun hmem' => hann (List.mem_of_mem_erase hmem'), request, hget, registration, ?_, hmatch⟩
  rw [get_repository] at hreg ⊢
  dsimp only
  rwa [GoMap.get_delete, if_neg hne]

theorem current_step (h : Current math matchString s) {label : Label}
    (hsafe : Withdraws math matchString s label) (hs : step math matchString s label = some t) :
    Current math matchString t := by
  cases label with
  | subscribe subID subReq => exact current_subscribe h hs
  | query subID ranks => exact current_query h hsafe hs
  | update attrRank entity registration =>
    obtain rfl := Option.some.inj hs
    exact current_update h hsafe
  | scan address ranks => exact current_scan h hsafe hs
  | retrieve eid =>
    refine ⟨sound_step h.sound hs, ?_⟩
    rcases step_retrieve hs with rfl | ⟨address, -, rfl⟩
    · exact h.held
    · exact h.held
  | announce eid address ranks => exact current_announce h hsafe hs
  | remove eid => exact current_remove h hs

theorem views_fresh {is : List Label}
    (hsafe : Meets (step math matchString) (Withdraws math matchString) System.init is) :
    Always (step math matchString) (Fresh math matchString) System.init is :=
  always_of_meets (I := fun _ s => Current math matchString s) hsafe current_init
    (fun _ _ _ _ _ _ hcurrent hc ht => current_step hcurrent hc ht)
    (fun _ _ hcurrent => hcurrent.fresh)

def temperatureRequest : SubscribeContextAvailabilityRequest :=
  roomRequest ["Room.1"] ["temperature"] []

def arrivalRun : List Label :=
  [.subscribe "sub" temperatureRequest,
    .update (fun _ => 0) (roomId "Room.1") (roomAt ["temperature"]), .scan 0 anyOrder]

def leavingRun : List Label :=
  [.subscribe "sub" temperatureRequest, .query "sub" anyOrder,
    .update (fun _ => 0) (roomId "Room.1") (roomAt ["temperature"]), .scan 0 anyOrder,
    .update (fun _ => 0) (roomId "Room.1") (roomAt []), .scan 0 anyOrder]

theorem leaving_room_held :
    ∃ s, exec exampleStep System.init leavingRun = some s ∧ s.Quiet ∧
      viewOf "sub" s.sent = ["Room.1"] ∧ ¬ Fresh exampleMath (fun _ _ => false) s := by
  refine ⟨_, rfl, by decide, by decide, fun hfresh => ?_⟩
  obtain ⟨registration, hreg, hmatch⟩ := hfresh "sub" temperatureRequest "Room.1" rfl (by decide)
  obtain rfl := Option.some.inj hreg
  exact absurd ((matches_iff (fun _ _ _ => 0)).mp hmatch) (by decide)

theorem arrival_fresh :
    Always exampleStep (Fresh exampleMath (fun _ _ => false)) System.init arrivalRun := by
  have hfirst : Meets exampleStep (Withdraws exampleMath (fun _ _ => false)) System.init
      [.subscribe "sub" temperatureRequest] := meets_singleton.mpr trivial
  have hsecond : Meets exampleStep (Withdraws exampleMath (fun _ _ => false)) System.init
      ([.subscribe "sub" temperatureRequest] ++
        [.update (fun _ => 0) (roomId "Room.1") (roomAt ["temperature"])]) := by
    refine (meets_concat rfl).mpr ⟨hfirst, ?_⟩
    intro subID request _ hview
    simp [viewOf, System.init] at hview
  have hthird : Meets exampleStep (Withdraws exampleMath (fun _ _ => false)) System.init
      ([.subscribe "sub" temperatureRequest,
        .update (fun _ => 0) (roomId "Room.1") (roomAt ["temperature"])] ++
        [.scan 0 anyOrder]) :=
    (meets_concat rfl).mpr ⟨hsecond, fun _ _ _ _ => ⟨rfl, by decide⟩⟩
  exact views_fresh hthird

end FogFlow.Discovery
