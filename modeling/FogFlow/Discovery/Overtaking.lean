import FogFlow.Discovery.Ordering

namespace FogFlow.Discovery.Ordering

open Ngsi Execution

-- what a list of calls of sendNotify adds to the senders
structure Sent (items : List Sending.CacheItem) (new : List Sending.Notice)
    (before after : Sending.System) : Prop where
  made : new.map Sending.Notice.item = items
  called : after.called = before.called ++ new
  held : after.held = before.held ++ new
  cached : after.notifyCache = before.notifyCache
  delivered : after.delivered = before.delivered
  numbers : ∀ n ∈ new, before.called.length ≤ n.call ∧
    n.call < before.called.length + items.length
  conserved : Sending.Conserved before → Sending.Conserved after

theorem sent_sendNotify (s : Sending.System) (item : Sending.CacheItem) :
    Sent [item] [⟨s.called.length, item⟩] s (s.sendNotify item) := by
  refine ⟨rfl, rfl, ?_, rfl, rfl, fun n hn => ?_, fun h => Sending.conserved_sendNotify h item⟩
  · simp [Sending.System.sendNotify, Sending.System.spawn, Sending.System.held,
      Sending.Goroutine.held]
  · obtain rfl := List.mem_singleton.mp hn
    simp

theorem sent_foldl (items : List Sending.CacheItem) (s : Sending.System) :
    ∃ new, Sent items new s (items.foldl Sending.System.sendNotify s) := by
  induction items generalizing s with
  | nil => exact ⟨[], ⟨rfl, by simp, by simp, rfl, rfl, by simp, id⟩⟩
  | cons item rest ih =>
    have hone := sent_sendNotify s item
    obtain ⟨new, hrest⟩ := ih (s.sendNotify item)
    refine ⟨⟨s.called.length, item⟩ :: new, ?_, ?_, ?_, hrest.cached.trans hone.cached,
      hrest.delivered.trans hone.delivered, fun n hn => ?_,
      fun h => hrest.conserved (hone.conserved h)⟩
    · rw [List.map_cons, hrest.made]
    · rw [List.foldl_cons, hrest.called, hone.called, List.append_assoc, List.singleton_append]
    · rw [List.foldl_cons, hrest.held, hone.held, List.append_assoc, List.singleton_append]
    · have hlength : (s.sendNotify item).called.length = s.called.length + 1 := by
        simp [hone.called]
      rw [List.length_cons]
      rcases List.mem_cons.mp hn with rfl | hn
      · dsimp only
        omega
      · have := hrest.numbers n hn
        omega

theorem call_lt {s : Sending.System} (h : Sending.Conserved s) {n : Sending.Notice}
    (hn : n ∈ s.called) : n.call < s.called.length := by
  have hmem : n.call ∈ s.called.map Sending.Notice.call := List.mem_map_of_mem hn
  rw [h.numbered] at hmem
  exact List.mem_range.mp hmem

theorem mem_called {s : Sending.System} (h : Sending.Conserved s) {n : Sending.Notice} :
    n ∈ s.called ↔ n ∈ s.delivered ∨ n ∈ s.notifyCache ++ s.held := by
  rw [← h.conserved.mem_iff, List.append_assoc, List.mem_append]

-- every message goes back to requests about its entities, and the messages that go back to the
-- latest request about an entity agree with its registration
structure Sends (s : System) : Prop where
  conserved : Sending.Conserved s.sending
  counted : s.causes.length = s.sending.called.length
  caused : ∀ n ∈ s.sending.called, ∀ eid ∈ named n.item.notify,
    ∃ r, s.cause n eid = some r ∧ s.requests[r]? = some eid
  inOrder : Delivery.InOrder (NotLater s) s.sending.delivered s.waiting
  deleting : ∀ d ∈ s.deleting, ∀ n ∈ s.sending.called, d.2 ∈ named n.item.notify →
    s.cause n d.2 = some d.1 → n.item.notify.errorCode.code = 410
  current : ∀ eid r, Latest s.requests eid r → r ∉ s.deleting.map Prod.fst →
    ∀ n ∈ s.sending.called, eid ∈ named n.item.notify → s.cause n eid = some r →
      Agrees n.item.notify (s.discovery.repository.get eid)

def Told (s : System) : Prop :=
  ∀ url eid r, ToldAbout s url eid → Latest s.requests eid r → ToldOf s url eid r ∨ Pending s r

variable {math : FloatMath} {matchString : MatchString} {s t : System}
  {discovery : Discovery.System} {notifies : List NotifyContextAvailabilityRequest}
  {cause : String → Option Nat}

def urlOf (s : System) (n : NotifyContextAvailabilityRequest) : String :=
  (itemOf s.discovery.subscriptions n).subscriberURL

-- a new message that goes back to this request about the entity
structure Admissible (s : System) (n : NotifyContextAvailabilityRequest) (eid : String) (r : Nat) :
    Prop where
  request : s.requests[r]? = some eid
  inOrder : ∀ m ∈ s.sending.delivered, About (urlOf s n) eid m →
    ∀ a, s.cause m eid = some a → a ≤ r
  deleting : (r, eid) ∈ s.deleting → n.errorCode.code = 410
  current : Latest s.requests eid r → r ∉ s.deleting.map Prod.fst →
    Agrees n (s.discovery.repository.get eid)

theorem sent_notify (s : System) (notifies : List NotifyContextAvailabilityRequest)
    (cause : String → Option Nat) :
    ∃ new, Sent (notifies.map (itemOf s.discovery.subscriptions)) new s.sending
      (s.notify notifies cause).sending := by
  have hfold : (s.notify notifies cause).sending =
      (notifies.map (itemOf s.discovery.subscriptions)).foldl Sending.System.sendNotify
        s.sending := by
    rw [List.foldl_map]
    rfl
  rw [hfold]
  exact sent_foldl _ _

theorem cause_of_called (h : Sends s) {n : Sending.Notice} (hn : n ∈ s.sending.called)
    (eid : String) : (s.notify notifies cause).cause n eid = s.cause n eid := by
  have hlt : n.call < s.causes.length := h.counted ▸ call_lt h.conserved hn
  simp only [System.cause, System.notify, List.getElem?_append_left hlt]

theorem cause_of_new (h : Sends s) {new : List Sending.Notice}
    (hsent : Sent (notifies.map (itemOf s.discovery.subscriptions)) new s.sending
      (s.notify notifies cause).sending) {n : Sending.Notice} (hn : n ∈ new) (eid : String) :
    (s.notify notifies cause).cause n eid = cause eid := by
  obtain ⟨hge, hlt⟩ := hsent.numbers n hn
  rw [← h.counted] at hge hlt
  rw [List.length_map] at hlt
  have hnew : n.call - s.causes.length < notifies.length := by omega
  simp only [System.cause, System.notify, List.getElem?_append_right hge, List.getElem?_map,
    List.getElem?_eq_getElem hnew, Option.map_some, Option.bind_some]

theorem exists_of_new {new : List Sending.Notice}
    (hsent : Sent (notifies.map (itemOf s.discovery.subscriptions)) new s.sending t.sending)
    {n : Sending.Notice} (hn : n ∈ new) :
    ∃ notify ∈ notifies, n.item = itemOf s.discovery.subscriptions notify := by
  have hmem : n.item ∈ new.map Sending.Notice.item := List.mem_map_of_mem hn
  rw [hsent.made] at hmem
  obtain ⟨notify, hnotify, heq⟩ := List.mem_map.mp hmem
  exact ⟨notify, hnotify, heq.symm⟩

theorem exists_new {new : List Sending.Notice}
    (hsent : Sent (notifies.map (itemOf s.discovery.subscriptions)) new s.sending t.sending)
    {notify : NotifyContextAvailabilityRequest} (hnotify : notify ∈ notifies) :
    ∃ n ∈ new, n.item = itemOf s.discovery.subscriptions notify := by
  have hmem : itemOf s.discovery.subscriptions notify ∈ new.map Sending.Notice.item := by
    rw [hsent.made]
    exact List.mem_map_of_mem hnotify
  exact List.mem_map.mp hmem

theorem notLater_old (h : Sends s) {m n : Sending.Notice} (hm : m ∈ s.sending.called)
    (hn : n ∈ s.sending.called) (hmn : NotLater s m n) :
    NotLater (s.notify notifies cause) m n := by
  intro url eid habout habout' a b ha hb
  rw [cause_of_called h hm] at ha
  rw [cause_of_called h hn] at hb
  exact hmn url eid habout habout' a b ha hb

theorem sends_notify (h : Sends s)
    (hnew : ∀ n ∈ notifies, ∀ eid ∈ named n, ∃ r, cause eid = some r ∧ Admissible s n eid r) :
    Sends (s.notify notifies cause) := by
  obtain ⟨new, hsent⟩ := sent_notify s notifies cause
  have hdelivered : ∀ m ∈ s.sending.delivered, m ∈ s.sending.called :=
    fun m hm => (mem_called h.conserved).mpr (Or.inl hm)
  have hadmissible : ∀ n ∈ new, ∀ eid ∈ named n.item.notify, ∃ r, cause eid = some r ∧
      Admissible s n.item.notify eid r ∧ n.item.subscriberURL = urlOf s n.item.notify := by
    intro n hn eid heid
    obtain ⟨notify, hnotify, hitem⟩ := exists_of_new hsent hn
    rw [hitem] at heid ⊢
    obtain ⟨r, hr, had⟩ := hnew notify hnotify eid heid
    exact ⟨r, hr, had, rfl⟩
  have hcalled : ∀ n ∈ (s.notify notifies cause).sending.called, n ∈ s.sending.called ∨ n ∈ new := by
    intro n hn
    rw [hsent.called] at hn
    exact List.mem_append.mp hn
  refine ⟨hsent.conserved h.conserved, ?_, fun n hn eid heid => ?_, ?_,
    fun d hd n hn heid hcause => ?_, fun eid r hlatest hnone n hn heid hcause => ?_⟩
  · have hlength : new.length = notifies.length := by
      rw [← List.length_map Sending.Notice.item, hsent.made, List.length_map]
    rw [hsent.called]
    simp [System.notify, h.counted, hlength]
  · rcases hcalled n hn with hold | hnew
    · rw [cause_of_called h hold]
      exact h.caused n hold eid heid
    · obtain ⟨r, hr, had, -⟩ := hadmissible n hnew eid heid
      rw [cause_of_new h hsent hnew]
      exact ⟨r, hr, had.request⟩
  · have hwaiting : (s.notify notifies cause).waiting = s.waiting ++ new := by
      rw [System.waiting, hsent.cached, hsent.held, System.waiting, List.append_assoc]
    rw [hwaiting, hsent.delivered]
    refine (h.inOrder.mono (fun m hm n hn hmn => ?_)).send (fun m hm n hn => ?_)
    · exact notLater_old h (hdelivered m hm) ((mem_called h.conserved).mpr hn) hmn
    · intro url eid habout habout' a b ha hb
      obtain ⟨r, hr, had, hurl⟩ := hadmissible n hn eid habout'.2
      rw [cause_of_called h (hdelivered m hm)] at ha
      rw [cause_of_new h hsent hn, hr] at hb
      rw [← Option.some.inj hb]
      refine had.inOrder m hm ⟨?_, habout.2⟩ a ha
      rw [← hurl, habout'.1, habout.1]
  · rcases hcalled n hn with hold | hnew
    · rw [cause_of_called h hold] at hcause
      exact h.deleting d hd n hold heid hcause
    · obtain ⟨r, hr, had, -⟩ := hadmissible n hnew d.2 heid
      rw [cause_of_new h hsent hnew, hr] at hcause
      obtain rfl := Option.some.inj hcause
      exact had.deleting hd
  · rcases hcalled n hn with hold | hnew
    · rw [cause_of_called h hold] at hcause
      exact h.current eid r hlatest hnone n hold heid hcause
    · obtain ⟨k, hk, had, -⟩ := hadmissible n hnew eid heid
      rw [cause_of_new h hsent hnew, hk] at hcause
      obtain rfl := Option.some.inj hcause
      exact had.current hlatest hnone

theorem toldAbout_notify {url eid : String} : ToldAbout (s.notify notifies cause) url eid ↔
    ToldAbout s url eid ∨ ∃ n ∈ notifies, urlOf s n = url ∧ eid ∈ named n := by
  obtain ⟨new, hsent⟩ := sent_notify s notifies cause
  unfold ToldAbout
  rw [hsent.called]
  simp only [List.mem_append, or_and_right, exists_or]
  refine or_congr_right ⟨?_, ?_⟩
  · rintro ⟨n, hn, habout⟩
    obtain ⟨notify, hnotify, hitem⟩ := exists_of_new hsent hn
    rw [About, hitem] at habout
    exact ⟨notify, hnotify, habout⟩
  · rintro ⟨notify, hnotify, habout⟩
    obtain ⟨n, hn, hitem⟩ := exists_new hsent hnotify
    exact ⟨n, hn, by rw [About, hitem]; exact habout⟩

theorem toldOf_notify (h : Sends s) {url eid : String} {r : Nat} :
    ToldOf (s.notify notifies cause) url eid r ↔ ToldOf s url eid r ∨
      cause eid = some r ∧ ∃ n ∈ notifies, urlOf s n = url ∧ eid ∈ named n := by
  obtain ⟨new, hsent⟩ := sent_notify s notifies cause
  unfold ToldOf
  rw [hsent.called]
  simp only [List.mem_append, or_and_right, exists_or]
  refine or_congr ?_ ⟨?_, ?_⟩
  · refine exists_congr (fun n => and_congr_right (fun hn => ?_))
    rw [cause_of_called h hn]
  · rintro ⟨n, hn, habout, hcause⟩
    rw [cause_of_new h hsent hn] at hcause
    obtain ⟨notify, hnotify, hitem⟩ := exists_of_new hsent hn
    rw [About, hitem] at habout
    exact ⟨hcause, notify, hnotify, habout⟩
  · rintro ⟨hcause, notify, hnotify, habout⟩
    obtain ⟨n, hn, hitem⟩ := exists_new hsent hnotify
    refine ⟨n, hn, by rw [About, hitem]; exact habout, ?_⟩
    rw [cause_of_new h hsent hn]
    exact hcause

theorem cause_congr (hcauses : t.causes = s.causes) : t.cause = s.cause := by
  unfold System.cause
  rw [hcauses]

-- nothing is sent: what is left to say of the deletions and of the registrations
theorem Sends.congr (h : Sends s) (hsending : t.sending = s.sending)
    (hcauses : t.causes = s.causes)
    (hrequests : ∀ (r : Nat) (eid : String),
      s.requests[r]? = some eid → t.requests[r]? = some eid)
    (hdeleting : ∀ d ∈ t.deleting, ∀ n ∈ s.sending.called, d.2 ∈ named n.item.notify →
      s.cause n d.2 = some d.1 → n.item.notify.errorCode.code = 410)
    (hcurrent : ∀ eid r, Latest t.requests eid r → r ∉ t.deleting.map Prod.fst →
      ∀ n ∈ s.sending.called, eid ∈ named n.item.notify → s.cause n eid = some r →
        Agrees n.item.notify (t.discovery.repository.get eid)) : Sends t := by
  have hcause := cause_congr hcauses
  refine ⟨?_, ?_, ?_, ?_, ?_, ?_⟩
  · rw [hsending]
    exact h.conserved
  · rw [hsending, hcauses]
    exact h.counted
  · rw [hsending, hcause]
    intro n hn eid heid
    obtain ⟨r, hr, hrequest⟩ := h.caused n hn eid heid
    exact ⟨r, hr, hrequests r eid hrequest⟩
  · unfold System.waiting NotLater
    rw [hsending, hcause]
    exact h.inOrder
  · rw [hsending, hcause]
    exact hdeleting
  · rw [hsending, hcause]
    exact hcurrent

theorem Sends.same (h : Sends s) (hsending : t.sending = s.sending)
    (hcauses : t.causes = s.causes) (hrequests : t.requests = s.requests)
    (hdeleting : t.deleting.Perm s.deleting)
    (hrepository : ∀ eid, t.discovery.repository.get eid = s.discovery.repository.get eid) :
    Sends t := by
  refine h.congr hsending hcauses (fun r eid hr => hrequests ▸ hr)
    (fun d hd => h.deleting d (hdeleting.mem_iff.mp hd)) (fun eid r hlatest hnone => ?_)
  rw [hrepository]
  rw [hrequests] at hlatest
  exact h.current eid r hlatest (fun hr => hnone ((hdeleting.map Prod.fst).mem_iff.mpr hr))

theorem lt_of_caused (h : Sends s) {n : Sending.Notice} (hn : n ∈ s.sending.called) {eid : String}
    {r : Nat} (heid : eid ∈ named n.item.notify) (hcause : s.cause n eid = some r) :
    r < s.requests.length := by
  obtain ⟨k, hk, hrequest⟩ := h.caused n hn eid heid
  rw [hk] at hcause
  rw [← Option.some.inj hcause]
  exact lt_of_getElem? hrequest

-- a new request about an entity has been the cause of nothing yet
theorem Sends.begin (h : Sends s) {e : String} (hsending : t.sending = s.sending)
    (hcauses : t.causes = s.causes) (hrequests : t.requests = s.requests ++ [e])
    (hdeleting : ∀ d ∈ t.deleting, d ∈ s.deleting ∨ d.1 = s.requests.length)
    (hmore : ∀ d ∈ s.deleting, d ∈ t.deleting)
    (hrepository : ∀ eid, eid ≠ e →
      t.discovery.repository.get eid = s.discovery.repository.get eid) : Sends t := by
  refine h.congr hsending hcauses (fun r eid hr => ?_) (fun d hd n hn heid hr => ?_)
    (fun eid r hlatest hnone n hn heid hr => ?_)
  · rw [hrequests]
    exact getElem?_concat_eq_some.mpr (Or.inl hr)
  · rcases hdeleting d hd with hold | hnew
    · exact h.deleting d hold n hn heid hr
    · exact absurd (lt_of_caused h hn heid hr) (by omega)
  · rw [hrequests] at hlatest
    rcases latest_concat hlatest with ⟨-, rfl⟩ | ⟨hne, hold⟩
    · exact absurd (lt_of_caused h hn heid hr) (lt_irrefl _)
    · rw [hrepository eid hne]
      refine h.current eid r hold (fun hmem => hnone ?_) n hn heid hr
      obtain ⟨d, hd, rfl⟩ := List.mem_map.mp hmem
      exact List.mem_map_of_mem (hmore d hd)

theorem Told.begin (h : Told s) {e : String} (hsending : t.sending = s.sending)
    (hcauses : t.causes = s.causes) (hrequests : t.requests = s.requests ++ [e])
    (hpending : ∀ r, Pending s r → Pending t r) (hnew : Pending t s.requests.length) : Told t := by
  intro url eid r htold hlatest
  rw [hrequests] at hlatest
  rcases latest_concat hlatest with ⟨-, rfl⟩ | ⟨-, hold⟩
  · exact Or.inr hnew
  · unfold ToldAbout at htold
    unfold ToldOf
    rw [hsending] at htold ⊢
    rw [cause_congr hcauses]
    exact (h url eid r htold hold).imp_right (hpending r)

theorem follow_eq (hsent : discovery.sent = s.discovery.sent ++ notifies) :
    s.follow discovery cause = { s with discovery }.notify notifies cause := by
  simp [System.follow, hsent]

-- what the three maps of requests say is kept whoever is told
theorem tracked_notify (h : Tracked s) : Tracked (s.notify notifies cause) :=
  ⟨h.sound, h.ordered, h.known, h.deletion, h.distinct, h.scanned, h.registered⟩

theorem not_deleting_of_applied (ht : Tracked s) {r : Nat} (hr : r ∈ s.applied) :
    r ∉ s.deleting.map Prod.fst := by
  intro hmem
  obtain ⟨d, hd, rfl⟩ := List.mem_map.mp hmem
  exact (ht.deletion d hd).2 hr

-- while nothing deletes it, a registered entity is due to the latest request about it
theorem lastApplied_latest (ht : Tracked s) {eid : String}
    (hnone : ∀ d ∈ s.deletions, d.eid ≠ eid)
    (hget : s.discovery.ctxRegistrationList.get eid ≠ none) :
    ∃ r ∈ s.applied, lastApplied s eid = some r ∧ Latest s.requests eid r := by
  obtain ⟨k, hk, hrequest⟩ := ht.registered eid hget
  have hmem : ∀ a, a ∈ s.applied.filter (fun request => s.requests[request]? == some eid) ↔
      a ∈ s.applied ∧ s.requests[a]? = some eid := by
    intro a
    rw [List.mem_filter, beq_iff_eq]
  have hne : s.applied.filter (fun request => s.requests[request]? == some eid) ≠ [] :=
    List.ne_nil_of_mem ((hmem k).mpr ⟨hk, hrequest⟩)
  obtain ⟨r, hlast⟩ := List.getLast?_isSome.mpr hne |> Option.isSome_iff_exists.mp
  obtain ⟨before, hsplit⟩ := List.getLast?_eq_some_iff.mp hlast
  obtain ⟨hr, hreid⟩ := (hmem r).mp (by rw [hsplit]; simp)
  refine ⟨r, hr, hlast, hreid, fun a ha => ?_⟩
  have happlied : a ∈ s.applied := by
    rcases (ht.known a).mp (lt_of_getElem? ha) with happlied | hdeleting
    · exact happlied
    · obtain ⟨d, hd, rfl⟩ := List.mem_map.mp hdeleting
      obtain ⟨deletion, hdeletion, rfl⟩ := List.mem_map.mp hd
      have hsame := (ht.deletion _ hd).1.1.symm.trans ha
      exact absurd (Option.some.inj hsame) (hnone deletion hdeletion)
  have hpairs := ht.ordered.filter (fun request => s.requests[request]? == some eid)
  have hin := (hmem a).mpr ⟨happlied, ha⟩
  rw [hsplit] at hpairs hin
  rcases List.mem_append.mp hin with hin | hin
  · have hlt := (List.pairwise_append.mp hpairs).2.2 a hin r List.mem_cons_self (ha.trans hreid.symm)
    exact hlt.le
  · exact (List.mem_singleton.mp hin).le

theorem sends_remove (ht : Tracked s) (h : Sends s) {d : Deletion} {rest : List Deletion}
    (hperm : s.deletions.Perm (d :: rest))
    (hlist : discovery.ctxRegistrationList = s.discovery.ctxRegistrationList.delete d.eid)
    (hobjects : discovery.objects = s.discovery.objects) :
    Sends (remove s d.request rest discovery) := by
  have hdeleting : s.deleting.Perm
      ((d.request, d.eid) :: (remove s d.request rest discovery).deleting) := hperm.map _
  have hmem : (d.request, d.eid) ∈ s.deleting := hdeleting.mem_iff.mpr List.mem_cons_self
  have hget : ∀ eid, discovery.repository.get eid =
      if eid = d.eid then none else s.discovery.repository.get eid := by
    intro eid
    rw [get_repository, get_repository, hlist, hobjects, GoMap.get_delete]
    split_ifs <;> rfl
  refine ⟨h.conserved, h.counted, h.caused, h.inOrder, fun e he => h.deleting e
    (hdeleting.mem_iff.mpr (List.mem_cons_of_mem _ he)), fun eid r hlatest hnone n hn heid hr => ?_⟩
  dsimp only [remove] at hn hlatest ⊢
  have hcause : s.cause n eid = some r := hr
  rw [hget]
  by_cases hrequest : r = d.request
  · subst hrequest
    have hentity : d.eid = eid := by
      have hsame := (ht.deletion _ hmem).1.1.symm.trans hlatest.1
      exact Option.some.inj hsame
    subst hentity
    rw [if_pos rfl]
    exact h.deleting _ hmem n hn heid hcause
  · have hne : eid ≠ d.eid := by
      rintro rfl
      exact hrequest (hlatest.unique (ht.deletion _ hmem).1)
    rw [if_neg hne]
    refine h.current eid r hlatest (fun hold => ?_) n hn heid hcause
    rw [(hdeleting.map Prod.fst).mem_iff, List.map_cons] at hold
    rcases List.mem_cons.mp hold with hold | hold
    · exact hrequest hold
    · exact hnone hold

theorem told_remove (h : Told s) {d : Deletion} {rest : List Deletion}
    (hperm : s.deletions.Perm (d :: rest)) (hannounced : d.announced = true) :
    Told (remove s d.request rest discovery) := by
  intro url eid r htold hlatest
  refine (h url eid r htold hlatest).imp_right (fun hpending => hpending.imp_right ?_)
  rintro ⟨e, he, hrequest, hsilent⟩
  rcases List.mem_cons.mp (hperm.mem_iff.mp he) with rfl | he
  · rw [hannounced] at hsilent
    cases hsilent
  · exact ⟨e, he, hrequest, hsilent⟩

end FogFlow.Discovery.Ordering
