import FogFlow.Broker.Network
import FogFlow.Broker.Notification

namespace FogFlow.Broker.Network

open Ngsi Handler Execution

variable {issued : List (String × String)} {url sid subID mainSubID id : String}
  {request : SubscribeContextRequest}

-- a subscription without correlator, which is for this broker iff it is held by another one
structure Placed (issued : List (String × String)) (url sid : String)
    (request : SubscribeContextRequest) : Prop where
  correlator : request.subscriber.correlator = ""
  issued : (request.subscriber.brokerURL, sid) ∈ issued
  reference : request.reference = url ↔ request.subscriber.brokerURL ≠ url

structure Table (issued : List (String × String)) (url : String) (tb : ThinBroker) : Prop where
  placed : ∀ sid request, tb.subscriptions.get sid = some request → Placed issued url sid request
  indexed : ∀ id, ∀ sid ∈ tb.entityId2Subcriptions.slice id, (url, sid) ∈ issued

theorem leaves_appendToIndex (h : (url, subID) ∈ issued) :
    Leaves (Table issued url) (appendToIndex id subID) := by
  intro tb ht
  refine ⟨ht.placed, fun k sid hsid => ?_⟩
  simp only [appendToIndex, Handler.modify, GoMap.slice_set] at hsid
  split_ifs at hsid
  · rcases List.mem_append.mp hsid with hold | hnew
    · exact ht.indexed _ _ hold
    · obtain rfl := List.mem_singleton.mp hnew
      exact h
  · exact ht.indexed _ _ hsid

theorem mem_of_mem_deleteFromIndex {index : GoMap (List String)} {k : String}
    (h : sid ∈ (deleteFromIndex index id subID).slice k) : sid ∈ index.slice k := by
  unfold deleteFromIndex at h
  split_ifs at h
  · rw [GoMap.slice_set] at h
    split_ifs at h with hk
    · rw [hk]
      exact List.mem_of_mem_erase h
    · exact h
  · exact h

theorem leaves_removeFromIndex : Leaves (Table issued url) (removeFromIndex id subID) :=
  fun _ ht => ⟨ht.placed, fun _ _ hsid => ht.indexed _ _ (mem_of_mem_deleteFromIndex hsid)⟩

theorem table_putSubscription {tb : ThinBroker} (ht : Table issued url tb)
    (h : Placed issued url sid request) : Table issued url (tb.putSubscription sid request) := by
  refine ⟨fun k r hr => ?_, ht.indexed⟩
  simp only [ThinBroker.putSubscription, GoMap.get_set] at hr
  split_ifs at hr with hk
  · obtain rfl := Option.some.inj hr
    rw [hk]
    exact h
  · exact ht.placed k r hr

theorem keptFor_table (hid : (url, subID) ∈ issued) : KeptFor (Table issued url) subID :=
  ⟨fun _ _ ht => ⟨ht.placed, ht.indexed⟩, fun _ => leaves_appendToIndex hid,
    fun _ => leaves_removeFromIndex⟩

theorem leaves_subscribeContext (h : Placed issued url subID request)
    (hid : (url, subID) ∈ issued) : Leaves (Table issued url) (subscribeContext request subID) :=
  (keptFor_table hid).subscribeContext (fun _ ht => table_putSubscription ht h)

section Notified

variable {cfg : Config} {isProsumer : Bool} {registration : ContextRegistration}

theorem placed_remoteRequest {entities : List EntityId}
    (hremote : registration.providingApplication ≠ cfg.myURL)
    (hid : (registration.providingApplication, sid) ∈ issued) :
    Placed issued cfg.myURL sid (remoteRequest cfg entities registration) :=
  ⟨rfl, hid, iff_of_true rfl hremote⟩

theorem leaves_handleNGSI9Notify {answers : Nat → Option String}
    {req : NotifyContextAvailabilityRequest} (hid : (cfg.myURL, mainSubID) ∈ issued)
    (hids : ∀ d ∈ answered req answers, d ∈ issued) :
    Leaves (Table issued cfg.myURL) (handleNGSI9Notify cfg answers mainSubID req isProsumer) := by
  refine (keptFor_table hid).handleNGSI9Notify (fun r hr hne sid hsid entities tb ht => ?_)
  have hplaced : Placed issued cfg.myURL sid
      (remoteRequest cfg entities r.1.contextRegistration) := by
    refine placed_remoteRequest hne (hids _ ?_)
    exact List.mem_filterMap.mpr ⟨r, hr, by simp [hsid]⟩
  have hput := table_putSubscription ht hplaced
  exact ⟨hput.placed, hput.indexed⟩

end Notified

structure Wired (s : System) : Prop where
  trimmed : ∀ url tb, s.brokers.get url = some tb → trimSpace url = url
  tables : ∀ url tb, s.brokers.get url = some tb → Table s.issued url tb
  plain : ∀ d ∈ s.issued, withoutSuffix d.2 = d.2 ∧ d.2 ≠ ""
  own : ∀ d ∈ s.issued, ∀ e ∈ s.issued, d.2 = e.2 → d.1 = e.1

theorem trimSpace_of_ends {s : String} {cs : List Char} {a b : Char}
    (h : s.toList = a :: (cs ++ [b])) (ha : isSpace a = false) (hb : isSpace b = false) :
    trimSpace s = s := by
  have hfront : (a :: (cs ++ [b])).dropWhile isSpace = a :: (cs ++ [b]) := by simp [ha]
  have hback : (a :: (cs ++ [b])).reverse.dropWhile isSpace = (a :: (cs ++ [b])).reverse := by
    simp [hb]
  rw [trimSpace, h, hfront, hback, List.reverse_reverse, ← h, String.ofList_toList]

theorem trimSpace_getBrokerURL (c : Address) : trimSpace (getBrokerURL c) = getBrokerURL c := by
  have hends : ∃ cs, (getBrokerURL c).toList = 'h' :: (cs ++ ['0']) := by
    obtain ⟨httpsEnabled, hostip, port⟩ := c
    cases httpsEnabled
    · exact ⟨"ttp://".toList ++ hostip.toList ++ ":".toList ++ port.repr.toList ++
        "/ngsi1".toList, by simp [getBrokerURL]⟩
    · exact ⟨"ttps://".toList ++ hostip.toList ++ ":".toList ++ port.repr.toList ++
        "/ngsi1".toList, by simp [getBrokerURL]⟩
  obtain ⟨cs, hcs⟩ := hends
  exact trimSpace_of_ends hcs rfl rfl

theorem table_mono {issued' : List (String × String)} {tb : ThinBroker}
    (hsub : issued ⊆ issued') (h : Table issued url tb) : Table issued' url tb where
  placed sid request hr :=
    ⟨(h.placed sid request hr).correlator, hsub (h.placed sid request hr).issued,
      (h.placed sid request hr).reference⟩
  indexed id sid hsid := hsub (h.indexed id sid hsid)

theorem wired_initial (addresses : List Address) : Wired (.initial addresses) := by
  have key : ∀ brokers : GoMap ThinBroker,
      (∀ url tb, brokers.get url = some tb → trimSpace url = url ∧ tb = newBroker) →
      ∀ url tb, (addresses.foldl (fun brokers c => brokers.set (getBrokerURL c) newBroker)
        brokers).get url = some tb → trimSpace url = url ∧ tb = newBroker := by
    induction addresses with
    | nil => exact fun _ h => h
    | cons c rest ih =>
      refine fun brokers h => ih _ (fun url tb hurl => ?_)
      rw [GoMap.get_set] at hurl
      split_ifs at hurl with hc
      · rw [hc]
        exact ⟨trimSpace_getBrokerURL c, (Option.some.inj hurl).symm⟩
      · exact h url tb hurl
  have hall := key ∅ (by simp)
  refine ⟨fun url tb h => (hall url tb h).1, fun url tb h => ?_, by simp [System.initial],
    by simp [System.initial]⟩
  rw [(hall url tb h).2]
  exact ⟨by simp [newBroker], by simp [newBroker]⟩

theorem own_append {s : System} {drawn : List (String × String)} (h : Wired s)
    (hfresh : AllFresh s drawn) {d e : String × String} (hd : d ∈ drawn ++ s.issued)
    (he : e ∈ drawn ++ s.issued) (heq : d.2 = e.2) : d.1 = e.1 := by
  have hnew : ∀ d ∈ drawn, ∀ e ∈ s.issued, d.2 ≠ e.2 := by
    intro d hd e he heq
    exact (hfresh.2 d hd).2.2 (heq ▸ List.mem_map_of_mem he)
  rcases List.mem_append.mp hd with hd | hd <;> rcases List.mem_append.mp he with he | he
  · rw [List.inj_on_of_nodup_map hfresh.1 hd he heq]
  · exact absurd heq (hnew d hd e he)
  · exact absurd heq.symm (hnew e he d hd)
  · exact h.own d hd e he heq

theorem wired_handleAt {s t : System} {drawn : List (String × String)} {h : Handler ThinBroker}
    (hw : Wired s) (hfresh : AllFresh s drawn) (hh : Leaves (Table (drawn ++ s.issued) url) h)
    (ht : handleAt s url drawn h = some t) : Wired t := by
  obtain ⟨tb, htb, rfl⟩ := Option.map_eq_some_iff.mp ht
  have hold : ∀ k r, s.brokers.get k = some r → Table (drawn ++ s.issued) k r :=
    fun k r hr => table_mono (List.subset_append_right _ _) (hw.tables k r hr)
  refine ⟨fun k r hr => ?_, fun k r hr => ?_, fun d hd => ?_, fun d hd e he =>
    own_append hw hfresh hd he⟩
  · rw [GoMap.get_set] at hr
    split_ifs at hr with hk
    · exact hw.trimmed k tb (hk ▸ htb)
    · exact hw.trimmed k r hr
  · rw [GoMap.get_set] at hr
    split_ifs at hr with hk
    · obtain rfl := Option.some.inj hr
      rw [hk]
      exact hh tb (hold url tb htb)
    · exact hold k r hr
  · rcases List.mem_append.mp hd with hd | hd
    · exact ⟨(hfresh.2 d hd).2.1, (hfresh.2 d hd).1⟩
    · exact hw.plain d hd

theorem placed_of_found {s : System} (h : Wired s) (hf : found s url sid = some request) :
    Placed s.issued url sid request := by
  obtain ⟨tb, htb, hr⟩ := Option.bind_eq_some_iff.mp hf
  exact (h.tables url tb htb).placed sid request hr

theorem wired_subscribe {s t : System} {header : Header} {subReq : SubscribeContextRequest}
    (h : Wired s) (ht : subscribe s url subID header subReq = some t) : Wired t := by
  unfold subscribe at ht
  split_ifs at ht with hguard
  obtain ⟨⟨-, hcorrelator, hreference⟩, hfresh⟩ := hguard
  have hmem : (url, subID) ∈ [(url, subID)] ++ s.issued := by simp
  have hbroker : ∃ tb, s.brokers.get url = some tb := by
    obtain ⟨tb, htb, -⟩ := Option.map_eq_some_iff.mp ht
    exact ⟨tb, htb⟩
  obtain ⟨tb, htb⟩ := hbroker
  have hne : trimSpace subReq.reference ≠ url := by
    rintro rfl
    simp [htb] at hreference
  refine wired_handleAt h ⟨by simp, by simpa using hfresh⟩ ?_ ht
  exact leaves_subscribeContext ⟨hcorrelator, hmem, iff_of_false hne (fun hu => hu rfl)⟩ hmem

theorem wired_notify {s t : System} {debugEnabled : Bool}
    {req : NotifyContextAvailabilityRequest} {answers : Nat → Option String} (h : Wired s)
    (ht : notify debugEnabled s url mainSubID req answers = some t) : Wired t := by
  unfold notify at ht
  split_ifs at ht with hguard
  obtain ⟨hmain, -, hfresh⟩ := hguard
  obtain ⟨request, hfound, hclient⟩ := (Option.any_eq_true _ _).mp hmain
  have hown : request.subscriber.brokerURL = url := by
    simp only [Bool.and_eq_true, beq_iff_eq] at hclient
    exact hclient.2
  have hid : (url, mainSubID) ∈ s.issued := hown ▸ (placed_of_found h hfound).issued
  refine wired_handleAt h hfresh ?_ ht
  exact @leaves_handleNGSI9Notify _ _ ⟨url, debugEnabled⟩ _ _ _
    (List.mem_append_right _ hid) (fun d hd => List.mem_append_left _ hd)

-- the subscription reaches the broker that has drawn its id, with the URL of the other one
theorem wired_accept {s t : System} (h : Wired s) (ht : accept s url sid = some t) : Wired t := by
  obtain ⟨request, hrequest, ht⟩ := Option.bind_eq_some_iff.mp ht
  obtain ⟨hfound, hremote⟩ := Option.filter_eq_some_iff.mp hrequest
  have hne : request.subscriber.brokerURL ≠ url := by simpa using hremote
  have hp := placed_of_found h hfound
  obtain ⟨tb, htb, -⟩ := Option.bind_eq_some_iff.mp hfound
  have hreference : trimSpace request.reference = url := by
    rw [hp.reference.mpr hne, h.trimmed url tb htb]
  refine wired_handleAt h ⟨by simp, by simp⟩ (leaves_subscribeContext ?_ hp.issued) ht
  refine ⟨rfl, hp.issued, iff_of_false ?_ (fun hu => hu rfl)⟩
  change trimSpace request.reference ≠ request.subscriber.brokerURL
  rw [hreference]
  exact hne.symm

theorem wired_step {s t : System} {debugEnabled : Bool} {label : Label} (h : Wired s)
    (ht : step debugEnabled s label = some t) : Wired t := by
  cases label with
  | subscribe url subID header subReq => exact wired_subscribe h ht
  | notify url mainSubID req answers => exact wired_notify h ht
  | accept url sid => exact wired_accept h ht

theorem wired_of_exec {s : System} {debugEnabled : Bool} {addresses : List Address}
    {labels : List Label} (h : exec (step debugEnabled) (.initial addresses) labels = some s) :
    Wired s :=
  exec_invariant (P := Wired) h (wired_initial addresses) (fun _ _ _ hw ht => wired_step hw ht)

end FogFlow.Broker.Network
