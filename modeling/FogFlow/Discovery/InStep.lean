import FogFlow.Discovery.Overtaking

namespace FogFlow.Discovery.Ordering

open Ngsi Execution

variable {math : FloatMath} {matchString : MatchString} {s t : System}
  {notifies : List NotifyContextAvailabilityRequest}

section Query

variable {subID : String} {ranks : Ranks}

theorem query_admissible (ht : Tracked s) (h : Sends s)
    (hc : Sequenced math matchString s (.query subID ranks))
    {subReq : SubscribeContextAvailabilityRequest}
    (hsub : s.discovery.subscriptions.get subID = some subReq)
    (hcreate : handleSubscribeCtxAvailability math matchString ranks s.discovery.repository subID
      subReq = .ok notifies) {n : NotifyContextAvailabilityRequest} (hn : n ∈ notifies)
    {eid : String} (heid : eid ∈ named n) :
    ∃ r, lastApplied s eid = some r ∧ Latest s.requests eid r ∧ Admissible s n eid r := by
  obtain ⟨-, hcode, hnames⟩ := create_names hcreate hn
  obtain ⟨k, registration, hget, hid, hmatch, hreports⟩ := hnames eid heid
  obtain rfl : eid = k := hid.symm.trans (ht.sound.id_of_repository hget)
  have hnone : ∀ d ∈ s.deletions, d.eid ≠ eid := by
    rintro d hd rfl
    exact hc subReq hsub d hd registration hget hmatch
  have hregistered : s.discovery.ctxRegistrationList.get eid ≠ none := by
    intro hnot
    rw [get_repository, hnot] at hget
    cases hget
  obtain ⟨r, hr, hlast, hlatest⟩ := lastApplied_latest ht hnone hregistered
  refine ⟨r, hlast, hlatest, hlatest.1, fun m hm habout a ha => ?_, fun hdeleting => ?_,
    fun _ _ => ?_⟩
  · obtain ⟨b, hb, hrequest⟩ := h.caused m ((mem_called h.conserved).mpr (Or.inl hm)) eid habout.2
    rw [hb] at ha
    rw [← Option.some.inj ha]
    exact hlatest.2 b hrequest
  · exact absurd (List.mem_map_of_mem hdeleting) (not_deleting_of_applied ht hr)
  · rw [hget]
    refine ⟨?_, hreports⟩
    rw [hcode]
    decide

theorem query_step (ht : Tracked s) (h : Sends s) (htold : Told s)
    (hc : Sequenced math matchString s (.query subID ranks))
    (hs : step math matchString s (.query subID ranks) = some t) :
    Tracked t ∧ Sends t ∧ Told t := by
  obtain ⟨discovery, hd, rfl⟩ := Option.map_eq_some_iff.mp hs
  have hsound := sound_step ht.sound hd
  obtain ⟨subReq, notifies, hsub, hcreate, rfl⟩ := step_query hd
  rw [follow_eq rfl]
  have hadmissible : ∀ n ∈ notifies, ∀ eid ∈ named n, ∃ r, lastApplied s eid = some r ∧
      Latest s.requests eid r ∧ Admissible s n eid r :=
    fun n hn eid heid => query_admissible ht h hc hsub hcreate hn heid
  generalize hnext : ({ s.discovery with
    queries := s.discovery.queries.erase subID
    sent := s.discovery.sent ++ notifies } : Discovery.System) = next at hsound ⊢
  have htracked : Tracked { s with discovery := next } := by
    subst hnext
    exact ht.same hsound rfl rfl rfl rfl rfl (List.Perm.refl _) (fun _ hscan => hscan)
  have hsends : Sends { s with discovery := next } := by
    subst hnext
    exact h.same rfl rfl rfl (List.Perm.refl _) (fun _ => rfl)
  have hnew : ∀ n ∈ notifies, ∀ eid ∈ named n, ∃ r, lastApplied s eid = some r ∧
      Admissible { s with discovery := next } n eid r := by
    intro n hn eid heid
    obtain ⟨r, hr, -, had⟩ := hadmissible n hn eid heid
    subst hnext
    exact ⟨r, hr, had.request, had.inOrder, had.deleting, had.current⟩
  refine ⟨tracked_notify htracked, sends_notify hsends hnew, fun url eid r hr hlatest => ?_⟩
  rw [toldOf_notify hsends]
  rcases toldAbout_notify.mp hr with hold | ⟨n, hn, hurl, heid⟩
  · rcases htold url eid r hold hlatest with hof | hpending
    · exact Or.inl (Or.inl hof)
    · exact Or.inr hpending
  · obtain ⟨k, hk, hkl, -⟩ := hadmissible n hn eid heid
    obtain rfl : k = r := hkl.unique hlatest
    exact Or.inl (Or.inr ⟨hk, n, hn, hurl, heid⟩)

end Query

section Scan

variable {ranks : Ranks} {request : Nat} {registration : EntityRegistration} {action : Action}

theorem urlOf_notice {subID : String} {subReq : SubscribeContextAvailabilityRequest}
    (h : s.discovery.subscriptions.get subID = some subReq) :
    urlOf s (notice ranks subID registration action) = subReq.reference := by
  have hget : s.discovery.subscriptions.get
      (notice ranks subID registration action).subscriptionId = some subReq := h
  rw [urlOf, itemOf, hget]
  rfl

theorem notified_iff (h : notifySubscribers math matchString ranks s.discovery.subscriptions
    registration action = .ok notifies) {url eid : String} :
    (∃ n ∈ notifies, urlOf s n = url ∧ eid ∈ named n) ↔
      eid = registration.id ∧ Notified math matchString s registration url := by
  constructor
  · rintro ⟨n, hn, hurl, heid⟩
    obtain ⟨subID, subReq, hget, hmatch, rfl⟩ := (mem_notifySubscribers h).mp hn
    rw [urlOf_notice hget] at hurl
    exact ⟨mem_named_notice.mp heid, subID, subReq, hget, hmatch, hurl⟩
  · rintro ⟨rfl, subID, subReq, hget, hmatch, hurl⟩
    refine ⟨_, (mem_notifySubscribers h).mpr ⟨subID, subReq, hget, hmatch, rfl⟩, ?_,
      mem_named_notice.mpr rfl⟩
    rw [urlOf_notice hget]
    exact hurl

theorem code_of_notified (h : notifySubscribers math matchString ranks s.discovery.subscriptions
    registration action = .ok notifies) {n : NotifyContextAvailabilityRequest} (hn : n ∈ notifies) :
    n.errorCode.code = action.code ∧ Reports n registration := by
  obtain ⟨subID, subReq, -, -, rfl⟩ := (mem_notifySubscribers h).mp hn
  exact ⟨rfl, reports_notice⟩

theorem le_of_caused (h : Sends s) {url eid : String} {r : Nat} (hlatest : Latest s.requests eid r)
    {m : Sending.Notice} (hm : m ∈ s.sending.called) (habout : About url eid m) {a : Nat}
    (ha : s.cause m eid = some a) : a ≤ r := by
  obtain ⟨b, hb, hrequest⟩ := h.caused m hm eid habout.2
  rw [hb] at ha
  rw [← Option.some.inj ha]
  exact hlatest.2 b hrequest

-- whoever has been told of the entity is told of this request too, or a later one is to come
theorem told_notified {number : Nat} (hnotify : notifySubscribers math matchString ranks
      s.discovery.subscriptions registration action = .ok notifies)
    (hsends : Sends t) (hsending : t.sending = s.sending) (hcauses : t.causes = s.causes)
    (hrequests : t.requests = s.requests) (hurl : ∀ n, urlOf t n = urlOf s n) (htold : Told s)
    (hnumber : s.requests[number]? = some registration.id)
    (hpending : ∀ r, r ≠ number → Pending s r → Pending t r)
    (hall : ∀ url, ToldAbout s url registration.id → Latest s.requests registration.id number →
      Notified math matchString s registration url)
    (hnew : ∀ url r, Notified math matchString s registration url →
      Latest s.requests registration.id r → r ≠ number →
      ToldOf s url registration.id r ∨ Pending s r) :
    Told (t.notify notifies (fun _ => some number)) := by
  intro url eid r hr hlatest'
  have hnotified : (∃ n ∈ notifies, urlOf t n = url ∧ eid ∈ named n) ↔
      eid = registration.id ∧ Notified math matchString s registration url := by
    simp only [hurl]
    exact notified_iff hnotify
  have habout : ToldAbout t url eid ↔ ToldAbout s url eid := by
    rw [ToldAbout, ToldAbout, hsending]
  have hof : ToldOf t url eid r ↔ ToldOf s url eid r := by
    rw [ToldOf, ToldOf, hsending, cause_congr hcauses]
  have hlatest : Latest s.requests eid r := hrequests ▸ hlatest'
  rw [toldAbout_notify, hnotified, habout] at hr
  rw [toldOf_notify hsends, hnotified, hof]
  by_cases heid : eid = registration.id
  · subst heid
    by_cases heq : r = number
    · subst heq
      exact Or.inl (Or.inr ⟨rfl, rfl, hr.elim (fun hold => hall url hold hlatest) And.right⟩)
    · refine (hr.elim (fun hold => htold _ _ _ hold hlatest)
        (fun h => hnew url r h.2 hlatest heq)).imp Or.inl (hpending r heq)
  · have hne : r ≠ number := by
      rintro rfl
      exact heid (Option.some.inj (hlatest.1.symm.trans hnumber))
    exact (hr.elim (fun hold => htold _ _ _ hold hlatest)
      (fun h => absurd h.1 heid)).imp Or.inl (hpending r hne)

theorem scan_step (ht : Tracked s) (h : Sends s) (htold : Told s)
    (hc : Sequenced math matchString s (.scan request ranks))
    (hs : step math matchString s (.scan request ranks) = some t) :
    Tracked t ∧ Sends t ∧ Told t := by
  obtain ⟨⟨⟨number, address⟩, rest⟩, htake, hs⟩ := Option.bind_eq_some_iff.mp hs
  obtain ⟨discovery, hd, rfl⟩ := Option.map_eq_some_iff.mp hs
  obtain rfl : number = request := by simpa using Pool.take_sat htake
  have hmem : (number, address) ∈ s.scans := Pool.mem_of_take htake
  have hsound := sound_step ht.sound hd
  obtain ⟨notifies, hnotify, rfl⟩ := step_scan hd
  obtain ⟨happlied, hbelow, hrequest, hregistered⟩ := ht.scanned _ hmem
  dsimp only at happlied hbelow hrequest hregistered hnotify
  have hcond := hc address hmem
  dsimp only at hcond
  rw [follow_eq rfl]
  generalize hnext : ({ s.discovery with
    scans := s.discovery.scans.erase address
    sent := s.discovery.sent ++ notifies } : Discovery.System) = next at hsound ⊢
  have htracked : Tracked { s with scans := rest, discovery := next } := by
    subst hnext
    exact ht.same hsound rfl rfl rfl rfl rfl (List.Perm.refl _)
      (fun _ hscan => Pool.mem_of_mem_rest htake hscan)
  have hsends : Sends { s with scans := rest, discovery := next } := by
    subst hnext
    exact h.same rfl rfl rfl (List.Perm.refl _) (fun _ => rfl)
  have hnew : ∀ n ∈ notifies, ∀ eid ∈ named n, ∃ r, (fun _ => some number) eid = some r ∧
      Admissible { s with scans := rest, discovery := next } n eid r := by
    intro n hn eid heid
    obtain ⟨rfl, hnotified⟩ := (notified_iff hnotify).mp ⟨n, hn, rfl, heid⟩
    obtain ⟨hcode, hreports⟩ := code_of_notified hnotify hn
    subst hnext
    refine ⟨number, rfl, hrequest, ((hcond _).1 hnotified).1, fun hdeleting => ?_, fun hlatest _ => ?_⟩
    · exact absurd (List.mem_map_of_mem hdeleting) (not_deleting_of_applied ht happlied)
    · have hget : s.discovery.repository.get (s.discovery.objects address).id =
          some (s.discovery.objects address) := by
        rw [get_repository, hregistered hlatest]
        rfl
      change Agrees n (s.discovery.repository.get _)
      rw [hget]
      refine ⟨?_, hreports⟩
      rw [hcode]
      decide
  refine ⟨tracked_notify htracked, sends_notify hsends hnew, told_notified hnotify hsends rfl rfl
    rfl ?_ htold hrequest ?_ ?_ ?_⟩
  · subst hnext
    exact fun _ => rfl
  · rintro r hne (⟨scan, hscan, rfl⟩ | hdeletion)
    · refine Or.inl ⟨scan, ?_, rfl⟩
      rcases List.mem_cons.mp ((Pool.take_perm htake).mem_iff.mp hscan) with rfl | hrest
      · exact absurd rfl hne
      · exact hrest
    · exact Or.inr hdeletion
  · exact fun url hold hlatest => (hcond url).2 hlatest hold
  · exact fun url r hnotified hlatest hne => ((hcond url).1 hnotified).2 r hlatest hne

end Scan

theorem announce_step {request : Nat} {ranks : Ranks} (ht : Tracked s) (h : Sends s) (htold : Told s)
    (hc : Sequenced math matchString s (.announce request ranks))
    (hs : step math matchString s (.announce request ranks) = some t) :
    Tracked t ∧ Sends t ∧ Told t := by
  obtain ⟨⟨d, rest⟩, htake, hs⟩ := Option.bind_eq_some_iff.mp hs
  obtain ⟨discovery, hd, rfl⟩ := Option.map_eq_some_iff.mp hs
  obtain ⟨rfl, -⟩ : d.request = request ∧ d.announced = false := by simpa using Pool.take_sat htake
  have hmem : d ∈ s.deletions := Pool.mem_of_take htake
  have hperm := Pool.take_perm htake
  obtain ⟨hlatest, hnot⟩ := ht.deletion _ (mem_deleting hmem)
  have hsound := sound_step ht.sound hd
  obtain ⟨hretrieved, notifies, hnotify, rfl⟩ := step_announce hd
  have hid : (s.discovery.objects d.address).id = d.eid := (ht.sound.held _ hretrieved).2
  have hcond := hc d hmem rfl
  rw [follow_eq rfl]
  dsimp only at hnotify ⊢
  generalize hnext : ({ s.discovery with
    retrieved := s.discovery.retrieved.erase (d.eid, d.address)
    announced := s.discovery.announced ++ [d.eid]
    sent := s.discovery.sent ++ notifies } : Discovery.System) = next at hsound ⊢
  generalize hsaid : { d with announced := true } :: rest = deletions
  have hdeleting : ({ s with deletions, discovery := next } : System).deleting.Perm s.deleting := by
    subst hsaid
    exact (hperm.map (fun d => (d.request, d.eid))).symm
  have htracked : Tracked { s with deletions, discovery := next } := by
    subst hnext
    exact ht.same hsound rfl rfl rfl rfl rfl hdeleting (fun _ hscan => hscan)
  have hsends : Sends { s with deletions, discovery := next } := by
    subst hnext
    exact h.same rfl rfl rfl hdeleting (fun _ => rfl)
  have hurlOf : ∀ n, urlOf { s with deletions, discovery := next } n = urlOf s n := by
    subst hnext
    exact fun _ => rfl
  have hnew : ∀ n ∈ notifies, ∀ eid ∈ named n, ∃ r, (fun _ => some d.request) eid = some r ∧
      Admissible { s with deletions, discovery := next } n eid r := by
    intro n hn eid heid
    obtain ⟨rfl, -⟩ := (notified_iff hnotify).mp ⟨n, hn, rfl, heid⟩
    rw [hid]
    refine ⟨d.request, rfl, hlatest.1, fun m hm habout a ha => ?_, fun _ => ?_, fun _ hnone => ?_⟩
    · exact le_of_caused h hlatest ((mem_called h.conserved).mpr (Or.inl hm)) habout ha
    · exact (code_of_notified hnotify hn).1
    · refine absurd ((hdeleting.map Prod.fst).mem_iff.mpr ?_) hnone
      exact List.mem_map_of_mem (mem_deleting hmem)
  have hrequest : s.requests[d.request]? = some (s.discovery.objects d.address).id := by
    rw [hid]
    exact hlatest.1
  refine ⟨tracked_notify htracked, sends_notify hsends hnew, told_notified hnotify hsends rfl rfl
    rfl hurlOf htold hrequest ?_ ?_ ?_⟩
  · rintro r hne (hscan | ⟨e, he, rfl, hsilent⟩)
    · exact Or.inl hscan
    · refine Or.inr ⟨e, ?_, rfl, hsilent⟩
      subst hsaid
      rcases List.mem_cons.mp (hperm.mem_iff.mp he) with rfl | hrest
      · exact absurd rfl hne
      · exact List.mem_cons_of_mem _ hrest
  · rw [hid]
    exact fun url hold _ => hcond url hold
  · rw [hid]
    exact fun url r _ hother hne => absurd (hother.unique hlatest) hne

theorem update_step {attrRank : String → Nat} {entity : EntityId}
    {registration : ContextRegistration} (ht : Tracked s) (h : Sends s) (htold : Told s)
    (hnone : ∀ d ∈ s.deletions, d.eid ≠ entity.id) :
    Tracked (update s entity (s.discovery.updateEntity attrRank entity registration)) ∧
      Sends (update s entity (s.discovery.updateEntity attrRank entity registration)) ∧
      Told (update s entity (s.discovery.updateEntity attrRank entity registration)) := by
  obtain ⟨address, haddress, -⟩ := scan_of_updateEntity (s := s.discovery) attrRank entity
    registration
  refine ⟨tracked_update ht hnone, ?_, ?_⟩
  · exact h.begin rfl rfl rfl (fun _ hd => Or.inl hd) (fun _ hd => hd)
      (fun _ hne => repository_updateEntity_ne ht.sound hne)
  · refine htold.begin rfl rfl rfl (fun r hpending => ?_)
      (Or.inl ⟨(s.requests.length, address), List.mem_append_right _ ?_, rfl⟩)
    · rcases hpending with ⟨scan, hscan, rfl⟩ | hdeletion
      · exact Or.inl ⟨scan, List.mem_append_left _ hscan, rfl⟩
      · exact Or.inr hdeletion
    · rw [haddress]
      exact List.mem_singleton_self _

theorem retrieve_step {eid : String} (ht : Tracked s) (h : Sends s) (htold : Told s)
    (hc : Sequenced math matchString s (.retrieve eid))
    (hs : step math matchString s (.retrieve eid) = some t) :
    Tracked t ∧ Sends t ∧ Told t := by
  simp only [step] at hs
  split at hs
  case h_2 =>
    obtain rfl := Option.some.inj hs
    exact ⟨ht, h, htold⟩
  case h_1 address hget =>
    obtain ⟨discovery, hd, rfl⟩ := Option.map_eq_some_iff.mp hs
    have hsound := sound_step ht.sound hd
    have hsame : discovery.ctxRegistrationList = s.discovery.ctxRegistrationList ∧
        discovery.objects = s.discovery.objects ∧ discovery.fresh = s.discovery.fresh := by
      rcases step_retrieve hd with rfl | ⟨other, -, rfl⟩ <;> exact ⟨rfl, rfl, rfl⟩
    obtain ⟨hlist, hobjects, hfresh⟩ := hsame
    refine ⟨tracked_retrieve ht hsound hlist hobjects hfresh hc, ?_, ?_⟩
    · refine h.begin rfl rfl rfl (fun d hd => ?_) (fun d hd => ?_) (fun e _ => ?_)
      · rw [retrieve, System.deleting, List.map_append] at hd
        exact (List.mem_append.mp hd).imp_right (fun hnew => by rw [List.mem_singleton.mp hnew])
      · rw [retrieve, System.deleting, List.map_append]
        exact List.mem_append_left _ hd
      · dsimp only [retrieve]
        rw [get_repository, get_repository, hlist, hobjects]
    · refine htold.begin rfl rfl rfl (fun r hpending => ?_)
        (Or.inr ⟨_, List.mem_append_right _ List.mem_cons_self, rfl, rfl⟩)
      rcases hpending with hscan | ⟨d, hd, rfl, hsilent⟩
      · exact Or.inl hscan
      · exact Or.inr ⟨d, List.mem_append_left _ hd, rfl, hsilent⟩

section Run

variable {sending : Sending.System} {g : Sending.Goroutine} {i : Nat} {done : Bool}

def waitingOf (sending : Sending.System) : List Sending.Notice :=
  sending.notifyCache ++ sending.held

-- a goroutine keeps what it holds and what is cached, but for what it posts
theorem delivered_advance : (Sending.advance done sending g).1.delivered =
    sending.delivered ++ (posted g done).toList := by
  cases g with
  | resend cachedItem newCache => cases cachedItem <;> cases done <;> simp [Sending.advance, posted]
  | _ => cases done <;> simp [Sending.advance, posted]

theorem mem_of_posted {n : Sending.Notice} (h : posted g done = some n) : n ∈ g.held := by
  cases g with
  | resend cachedItem newCache =>
    cases cachedItem <;> cases done <;> simp_all [posted, Sending.Goroutine.held]
  | _ => cases done <;> simp_all [posted, Sending.Goroutine.held]

theorem mem_held_of_getElem? (hg : sending.running[i]? = some g) {n : Sending.Notice}
    (hn : n ∈ g.held) : n ∈ waitingOf sending :=
  List.mem_append_right _ (List.mem_flatMap.mpr ⟨g, List.mem_of_getElem? hg, hn⟩)

theorem waiting_advance {n : Sending.Notice}
    (hn : n ∈ (Sending.advance done sending g).1.notifyCache ++
      (Sending.advance done sending g).2.flatMap Sending.Goroutine.held) :
    n ∈ sending.notifyCache ++ g.held := by
  cases g with
  | checkCache notice =>
    cases hempty : sending.notifyCache.isEmpty <;>
      simpa [Sending.advance, hempty, Sending.Goroutine.held] using hn
  | resend cachedItem newCache =>
    cases cachedItem <;> cases done <;> simp [Sending.advance, Sending.Goroutine.held] at hn ⊢ <;>
      tauto
  | postNotify notice =>
    cases done <;> simp [Sending.advance, Sending.Goroutine.held] at hn ⊢ <;> tauto
  | storeItem notice | takeCache => simpa [Sending.advance, Sending.Goroutine.held] using hn

theorem waiting_advanceAt (hg : sending.running[i]? = some g) {n : Sending.Notice}
    (hn : n ∈ waitingOf (sending.advanceAt i done g)) : n ∈ waitingOf sending := by
  have hkeep : n ∈ (Sending.advance done sending g).1.notifyCache ++
      (Sending.advance done sending g).2.flatMap Sending.Goroutine.held → n ∈ waitingOf sending := by
    intro hnew
    rcases List.mem_append.mp (waiting_advance hnew) with hcached | hheld
    · exact List.mem_append_left _ hcached
    · exact mem_held_of_getElem? hg hheld
  rcases List.mem_append.mp hn with hcached | hheld
  · exact hkeep (List.mem_append_left _ hcached)
  · obtain ⟨other, hother, hn⟩ := List.mem_flatMap.mp hheld
    rcases Pool.mem_replace hother with hold | hnew
    · exact List.mem_append_right _ (List.mem_flatMap.mpr ⟨other, hold, hn⟩)
    · exact hkeep (List.mem_append_right _ (List.mem_flatMap.mpr ⟨other, hnew, hn⟩))

theorem run_step (h : Sends s) (htold : Told s)
    (hc : Sequenced math matchString s (.run i done)) (hg : s.sending.running[i]? = some g) :
    Sends { s with sending := s.sending.advanceAt i done g } ∧
      Told { s with sending := s.sending.advanceAt i done g } := by
  have hcalled : (s.sending.advanceAt i done g).called = s.sending.called :=
    Sending.called_advance done s.sending g
  have hwaiting : ∀ n ∈ waitingOf (s.sending.advanceAt i done g), n ∈ s.waiting :=
    fun n hn => waiting_advanceAt hg hn
  have hdelivered : (s.sending.advanceAt i done g).delivered =
      s.sending.delivered ++ (posted g done).toList := delivered_advance
  have hinOrder : Delivery.InOrder (NotLater s) (s.sending.advanceAt i done g).delivered
      (waitingOf (s.sending.advanceAt i done g)) := by
    rw [hdelivered]
    cases hposted : posted g done with
    | none =>
      rw [Option.toList_none, List.append_nil]
      exact h.inOrder.fewer hwaiting
    | some n =>
      exact h.inOrder.deliver (mem_held_of_getElem? hg (mem_of_posted hposted))
        (hc g n hg hposted) hwaiting
  constructor
  · refine ⟨Sending.conserved_advanceAt h.conserved done hg, ?_, ?_, hinOrder, ?_, ?_⟩
    all_goals dsimp only
    all_goals rw [hcalled]
    · exact h.counted
    · exact h.caused
    · exact h.deleting
    · exact h.current
  · intro url eid r hr hlatest
    unfold ToldAbout at hr
    unfold ToldOf
    dsimp only at hr ⊢
    rw [hcalled] at hr ⊢
    exact htold url eid r hr hlatest

end Run

theorem timer_step (h : Sends s) (htold : Told s) :
    Sends { s with sending := s.sending.spawn .takeCache } ∧
      Told { s with sending := s.sending.spawn .takeCache } := by
  have hheld : (s.sending.spawn .takeCache).held = s.sending.held := by
    simp [Sending.System.spawn, Sending.System.held, Sending.Goroutine.held]
  refine ⟨⟨?_, h.counted, h.caused, ?_, h.deleting, h.current⟩, htold⟩
  · have hstep : Sending.step s.sending .onTimer = some (s.sending.spawn .takeCache) := rfl
    exact Sending.conserved_step h.conserved hstep
  · have hwaiting : ({ s with sending := s.sending.spawn .takeCache } : System).waiting =
        s.waiting := by
      rw [System.waiting, hheld]
      rfl
    rw [hwaiting]
    exact h.inOrder

structure Kept (s : System) : Prop where
  tracked : Tracked s
  sends : Sends s
  told : Told s

theorem kept_step (h : Kept s) {label : Label} (hc : Sequenced math matchString s label)
    (hs : step math matchString s label = some t) : Kept t := by
  obtain ⟨ht, hsends, htold⟩ := h
  cases label with
  | subscribe subID subReq =>
    obtain ⟨discovery, hd, rfl⟩ := Option.map_eq_some_iff.mp hs
    have hsound := sound_step ht.sound hd
    obtain ⟨-, rfl⟩ := step_subscribe hd
    exact ⟨ht.same hsound rfl rfl rfl rfl rfl (List.Perm.refl _) (fun _ hscan => hscan),
      hsends.same rfl rfl rfl (List.Perm.refl _) (fun _ => rfl), htold⟩
  | query subID ranks =>
    obtain ⟨ht', hsends', htold'⟩ := query_step ht hsends htold hc hs
    exact ⟨ht', hsends', htold'⟩
  | update attrRank entity registration =>
    obtain rfl := Option.some.inj hs
    obtain ⟨ht', hsends', htold'⟩ := update_step ht hsends htold hc
    exact ⟨ht', hsends', htold'⟩
  | scan request ranks =>
    obtain ⟨ht', hsends', htold'⟩ := scan_step ht hsends htold hc hs
    exact ⟨ht', hsends', htold'⟩
  | retrieve eid =>
    obtain ⟨ht', hsends', htold'⟩ := retrieve_step ht hsends htold hc hs
    exact ⟨ht', hsends', htold'⟩
  | announce request ranks =>
    obtain ⟨ht', hsends', htold'⟩ := announce_step ht hsends htold hc hs
    exact ⟨ht', hsends', htold'⟩
  | remove request =>
    obtain ⟨⟨d, rest⟩, htake, hs⟩ := Option.bind_eq_some_iff.mp hs
    obtain ⟨discovery, hd, rfl⟩ := Option.map_eq_some_iff.mp hs
    obtain ⟨rfl, hannounced⟩ : d.request = request ∧ d.announced = true := by
      simpa using Pool.take_sat htake
    have hsound := sound_step ht.sound hd
    obtain ⟨-, rfl⟩ := step_remove hd
    have hperm := Pool.take_perm htake
    exact ⟨tracked_remove ht hperm hsound rfl rfl rfl, sends_remove ht hsends hperm rfl rfl,
      told_remove htold hperm hannounced⟩
  | onTimer =>
    obtain rfl := Option.some.inj hs
    obtain ⟨hsends', htold'⟩ := timer_step hsends htold
    exact ⟨ht.same ht.sound rfl rfl rfl rfl rfl (List.Perm.refl _) (fun _ hscan => hscan),
      hsends', htold'⟩
  | run i done =>
    obtain ⟨sending, hsending, rfl⟩ := Option.map_eq_some_iff.mp hs
    obtain ⟨g, hg, rfl⟩ := Option.map_eq_some_iff.mp hsending
    obtain ⟨hsends', htold'⟩ := run_step hsends htold hc hg
    exact ⟨ht.same ht.sound rfl rfl rfl rfl rfl (List.Perm.refl _) (fun _ hscan => hscan),
      hsends', htold'⟩

theorem kept_init : Kept System.init := by
  refine ⟨tracked_init, ⟨Sending.conserved_init, rfl, ?_, Delivery.inOrder_nil, ?_, ?_⟩, ?_⟩ <;>
    simp [System.init, Sending.System.init, System.deleting, Told, ToldAbout]

theorem ordered_of_kept (h : Kept s) : Ordered s := by
  intro url eid
  have hpairs : s.sending.delivered.Pairwise (NotLater s) := h.sends.inOrder.arrived
  refine (hpairs.filter _).imp_of_mem (fun {m n} hm hn hmn a b ha hb hbefore => ?_)
  obtain ⟨hm, habout⟩ := List.mem_filter.mp hm
  obtain ⟨hn, habout'⟩ := List.mem_filter.mp hn
  have habout := of_decide_eq_true habout
  have habout' := of_decide_eq_true habout'
  have hle : a ≤ b := hmn url eid habout habout' a b ha hb
  have hrequest : ∀ k ∈ s.sending.delivered, About url eid k → ∀ c, s.cause k eid = some c →
      s.requests[c]? = some eid := by
    intro k hk hkabout c hc
    obtain ⟨r, hr, hrequest⟩ := h.sends.caused k
      ((mem_called h.sends.conserved).mpr (Or.inl hk)) eid hkabout.2
    rw [hr] at hc
    rwa [← Option.some.inj hc]
  have hpair : [b, a].Pairwise (fun a b => s.requests[a]? = s.requests[b]? → a < b) :=
    h.tracked.ordered.sublist hbefore
  have hlt : b < a := (List.pairwise_pair.mp hpair)
    ((hrequest n hn habout' b hb).trans (hrequest m hm habout a ha).symm)
  omega

theorem current_of_kept (h : Kept s) {url eid : String} (hsettled : Settled s url eid)
    {n : Sending.Notice} (hlast : (s.received url eid).getLast? = some n) :
    Agrees n.item.notify (s.discovery.repository.get eid) := by
  have hmem := List.mem_of_getLast? hlast
  obtain ⟨hdelivered, habout⟩ := List.mem_filter.mp hmem
  have habout := of_decide_eq_true habout
  have hcalled : ∀ m ∈ s.sending.delivered, m ∈ s.sending.called :=
    fun m hm => (mem_called h.sends.conserved).mpr (Or.inl hm)
  obtain ⟨a, ha, hrequest⟩ := h.sends.caused n (hcalled n hdelivered) eid habout.2
  obtain ⟨r, hlatest⟩ := exists_latest hrequest
  have hnone : r ∉ s.deleting.map Prod.fst := by
    intro hr
    obtain ⟨e, he, rfl⟩ := List.mem_map.mp hr
    obtain ⟨d, hd, rfl⟩ := List.mem_map.mp he
    have hsame := (h.tracked.deletion _ he).1.1.symm.trans hlatest.1
    exact hsettled.deletions d hd (Option.some.inj hsame)
  rcases h.told url eid r ⟨n, hcalled n hdelivered, habout⟩ hlatest with
    ⟨m, hm, hmabout, hmcause⟩ | ⟨scan, hscan, rfl⟩ | ⟨d, hd, rfl, -⟩
  · have harrived : m ∈ s.sending.delivered :=
      ((mem_called h.sends.conserved).mp hm).resolve_right
        (fun hwaiting => hsettled.waiting m hwaiting hmabout)
    have hle : r ≤ a := by
      rcases h.sends.inOrder.last harrived (decide_eq_true hmabout) hlast with rfl | hmn
      · rw [hmcause] at ha
        exact (Option.some.inj ha).le
      · exact hmn url eid hmabout habout r a hmcause ha
    obtain rfl : a = r := le_antisymm (hlatest.2 a hrequest) hle
    exact h.sends.current eid a hlatest hnone n (hcalled n hdelivered) habout.2 ha
  · exact absurd hlatest.1 (hsettled.scans scan hscan)
  · exact absurd (List.mem_map_of_mem (mem_deleting hd)) hnone

theorem notifications_in_step {labels : List Label}
    (hsequenced : Meets (step math matchString) (Sequenced math matchString) System.init labels) :
    Always (step math matchString) InStep System.init labels :=
  always_of_meets (I := fun _ s => Kept s) hsequenced kept_init
    (fun _ _ _ _ _ _ h hc hs => kept_step h hc hs)
    (fun _ _ h => ⟨ordered_of_kept h, fun _ _ hsettled _ hlast => current_of_kept h hsettled hlast⟩)

def roomRun : System → Label → Option System := step exampleMath (fun _ _ => false)

def roomComes : List Label :=
  [.subscribe "sub" (roomRequest ["Room.1"] [] []),
    .update (fun _ => 0) (roomId "Room.1") (roomAt []), .scan 0 anyOrder, .run 0 true]

def roomLeaves : List Label := [.retrieve "Room.1", .announce 1 anyOrder, .remove 1]

-- the UPDATE waits in the cache, and the DELETE starts its resend but is posted at once
def overtakingRun : List Label :=
  roomComes ++ [.run 0 false, .run 0 true] ++ roomLeaves ++
    [.run 0 true, .run 1 true, .run 0 true, .run 0 true, .run 0 true]

theorem delete_overtakes_update :
    ∃ s, exec roomRun System.init overtakingRun = some s ∧
      Settled s "http://subscriber" "Room.1" ∧
      (s.received "http://subscriber" "Room.1").map (·.item.notify.errorCode.code) = [410, 301] ∧
      s.discovery.repository.get "Room.1" = none ∧ ¬ Ordered s ∧ ¬ InStep s := by
  have hrun : ∃ s m n, exec roomRun System.init overtakingRun = some s ∧
      s.received "http://subscriber" "Room.1" = [m, n] ∧ s.cause m "Room.1" = some 1 ∧
      s.cause n "Room.1" = some 0 ∧ m.item.notify.errorCode.code = 410 ∧
      n.item.notify.errorCode.code = 301 ∧ s.applied = [0, 1] ∧ s.scans = [] ∧
      s.deletions = [] ∧ s.waiting = [] ∧ s.discovery.repository.get "Room.1" = none :=
    ⟨_, _, _, rfl, rfl, rfl, rfl, rfl, rfl, rfl, rfl, rfl, rfl, rfl⟩
  obtain ⟨s, m, n, hs, hreceived, hm, hn, hdelete, hupdate, happlied, hscans, hdeletions, hwaiting,
    hgone⟩ := hrun
  have hsettled : Settled s "http://subscriber" "Room.1" := by
    refine ⟨?_, ?_, ?_⟩
    · rw [hscans]
      simp
    · rw [hdeletions]
      simp
    · rw [hwaiting]
      simp
  have hnot : ¬ Ordered s := by
    intro h
    have hpair := h "http://subscriber" "Room.1"
    rw [hreceived] at hpair
    refine List.pairwise_pair.mp hpair 1 0 hm hn ?_
    rw [Before, happlied]
  refine ⟨s, hs, hsettled, ?_, hgone, hnot, fun h => hnot h.ordered⟩
  rw [hreceived, List.map_cons, List.map_cons, hdelete, hupdate]
  rfl

def orderlyRun : List Label := roomComes ++ [.run 0 true] ++ roomLeaves ++ [.run 0 true, .run 0 true]

def sequencedChecked (s : System) : Label → Bool
  | .subscribe .. | .remove _ | .onTimer => true
  | .query .. => false
  | .update .. | .retrieve _ => s.deletions.isEmpty
  | .scan request _ => s.sending.called.isEmpty && s.sending.delivered.isEmpty &&
      s.requests.length == 1 && request == 0
  | .announce _ _ => s.deletions.all (fun d => s.sending.called.all (fun n =>
      (s.discovery.subscriptions.get n.item.notify.subscriptionId).any (fun subReq =>
        subReq.reference == n.item.subscriberURL &&
          (matchingWithFilters exampleMath (fun _ _ => false) (fun _ _ _ => 0)
            (s.discovery.objects d.address) subReq.entities subReq.attributes
            subReq.restriction).toOption == some true)))
  | .run .. => decide (s.waiting.length ≤ 1)

theorem sequenced_of_checked {s : System} {label : Label} (h : sequencedChecked s label = true) :
    Sequenced exampleMath (fun _ _ => false) s label := by
  cases label with
  | subscribe _ _ | remove _ | onTimer => trivial
  | query _ _ => cases h
  | update _ _ _ | retrieve _ =>
    have hnone : s.deletions = [] := List.isEmpty_iff.mp h
    intro d hd
    rw [hnone] at hd
    cases hd
  | scan request _ =>
    simp only [sequencedChecked, Bool.and_eq_true, List.isEmpty_iff, beq_iff_eq] at h
    obtain ⟨⟨⟨hcalled, hdelivered⟩, hlength⟩, rfl⟩ := h
    refine fun address _ url => ⟨fun _ => ⟨fun m hm => ?_, fun latest hlatest hne => ?_⟩, ?_⟩
    · rw [hdelivered] at hm
      cases hm
    · have hlt := lt_of_getElem? hlatest.1
      omega
    · rintro _ ⟨n, hn, -⟩
      rw [hcalled] at hn
      cases hn
  | announce request _ =>
    rintro d hd - url ⟨n, hn, rfl, -⟩
    have hall := List.all_eq_true.mp (List.all_eq_true.mp h d hd) n hn
    cases hget : s.discovery.subscriptions.get n.item.notify.subscriptionId with
    | none =>
      rw [hget] at hall
      cases hall
    | some subReq =>
      rw [hget, Option.any_some, Bool.and_eq_true, beq_iff_eq, beq_iff_eq] at hall
      refine ⟨_, subReq, hget, (matches_iff (fun _ _ _ => 0)).mpr ?_, hall.1⟩
      cases hmatch : matchingWithFilters exampleMath (fun _ _ => false) (fun _ _ _ => 0)
          (s.discovery.objects d.address) subReq.entities subReq.attributes
          subReq.restriction with
      | error fault =>
        rw [hmatch] at hall
        cases hall.2
      | ok matched =>
        rw [hmatch] at hall
        rw [Option.some.inj hall.2]
  | run i done =>
    have hlength : s.waiting.length ≤ 1 := of_decide_eq_true h
    intro g n hg hposted m hm url eid _ _ a b ha hb
    have hn : n ∈ s.waiting := mem_held_of_getElem? hg (mem_of_posted hposted)
    obtain rfl : n = m := by
      obtain ⟨j, hj, rfl⟩ := List.getElem_of_mem hn
      obtain ⟨k, hk, rfl⟩ := List.getElem_of_mem hm
      congr 1
      omega
    rw [ha] at hb
    exact (Option.some.inj hb).le

theorem orderly_room_in_step : ∃ s, exec roomRun System.init orderlyRun = some s ∧
    (s.received "http://subscriber" "Room.1").map (·.item.notify.errorCode.code) = [301, 410] ∧
    Always roomRun InStep System.init orderlyRun := by
  have hchecked : check roomRun sequencedChecked System.init orderlyRun = true := rfl
  exact ⟨_, rfl, rfl, notifications_in_step
    (meets_of_check (fun _ _ _ h => sequenced_of_checked h) hchecked)⟩

end FogFlow.Discovery.Ordering
