import FogFlow.Broker.Propagation

namespace FogFlow.Broker.Forwarding

open Ngsi Execution Network

variable {n : Network.System} {s t : System} {k : Nat} {labels : List Label}

theorem tracked_step {label : Label} (hw : Wired n) (h : Tracked n s)
    (ht : step n.brokers s label = some t) : Tracked n t := by
  cases label with
  | updateContext url ctxElem =>
    obtain ⟨tb, htb, rfl⟩ := Option.map_eq_some_iff.mp ht
    exact tracked_update hw h htb
  | notifyContext m =>
    simp only [step] at ht
    split_ifs at ht with hm
    obtain rfl := Option.some.inj ht
    exact tracked_deliver hw h hm

theorem tracked_of_exec (hw : Wired n) (h : exec (step n.brokers) .initial labels = some s) :
    Tracked n s :=
  exec_invariant (P := Tracked n) h
    ⟨by simp [System.initial], by simp [System.initial]⟩
    (fun _ _ _ hs ht => tracked_step hw hs ht)

theorem count_paths (url : String) (messages : List Notification) :
    ((paths k messages).map Prod.snd).count url =
      messages.countP (fun m => m.update == k && m.url == url) := by
  induction messages with
  | nil => rfl
  | cons m rest ih =>
    rw [paths_cons, List.countP_cons, ← ih]
    by_cases hk : m.update = k <;> simp [hk, path, List.count_cons]

theorem length_paths (messages : List Notification) :
    (paths k messages).length = messages.countP (fun m => m.update == k) := by
  simp [paths, List.countP_eq_length_filter]

theorem mem_paths {messages : List Notification} {m : Notification} (hm : m ∈ messages)
    (hk : m.update = k) : path m ∈ paths k messages :=
  List.mem_map_of_mem (List.mem_filter.mpr ⟨hm, by simpa using hk⟩)

theorem exists_of_mem_paths {messages : List Notification} {p : String × String}
    (hp : p ∈ paths k messages) : ∃ m ∈ messages, m.update = k ∧ path m = p := by
  obtain ⟨m, hm, rfl⟩ := List.mem_map.mp hp
  obtain ⟨hm, hk⟩ := List.mem_filter.mp hm
  exact ⟨m, hm, by simpa using hk, rfl⟩

-- where the messages of one broker go is decided by its routes
theorem mem_forward_iff {m : Notification} {u : Update} {url : String} (hw : Wired n)
    (h : Sound n s.updates m) (hu : s.updates[m.update]? = some u) :
    (∃ m' ∈ forward n.brokers s m, m'.url = url) ↔ url ∈ u.next n.brokers m.url := by
  obtain ⟨u', hu', hentity⟩ := h.carries
  obtain rfl : u' = u := Option.some.inj (hu'.symm.trans hu)
  have hpath := map_path_forward (s := s) hw h hentity
  constructor
  · rintro ⟨m', hm', rfl⟩
    have hmem : path m' ∈ Flood.relay (u'.next n.brokers) m.url :=
      hpath ▸ List.mem_map_of_mem hm'
    exact (Flood.mem_relay.mp hmem).2
  · intro hurl
    have hmem : (m.url, url) ∈ (forward n.brokers s m).map path :=
      hpath ▸ Flood.mem_relay.mpr ⟨rfl, hurl⟩
    obtain ⟨m', hm', heq⟩ := List.mem_map.mp hmem
    exact ⟨m', hm', (Prod.mk.inj heq).2⟩

theorem forwardedOnce_of_singleRoute (hw : Wired n) (h : Tracked n s)
    (hroute : ∀ u ∈ s.updates, SingleRoute n.brokers u) (k : Nat) :
    ForwardedOnce n.brokers s k := by
  have hsound := h.sound
  cases hu : s.updates[k]? with
  | none =>
    have hno : ∀ messages : List Notification, (∀ m ∈ messages, Sound n s.updates m) →
        ∀ m ∈ messages, m.update ≠ k := by
      rintro messages hs m hm rfl
      obtain ⟨u, hu', -⟩ := (hs m hm).carries
      rw [hu] at hu'
      cases hu'
    have hreceived := hno s.received (fun m hm => hsound m (List.mem_append_right _ hm))
    constructor
    · intro url
      rw [← count_paths, paths_eq_nil hreceived]
      exact Nat.zero_le 1
    · intro m hm hk
      exact absurd hk (hreceived m hm)
    · rw [← length_paths, paths_eq_nil (hno _ hsound)]
      exact Nat.zero_le _
  | some u =>
    have hsingle : SingleRoute n.brokers u := hroute u (List.mem_of_getElem? hu)
    have hreached := h.flood k u hu
    have honce := (Flood.traced_of_reached hsingle hreached).once
    rw [List.map_append] at honce
    constructor
    · intro url
      rw [← count_paths]
      exact List.nodup_iff_count_le_one.mp (List.nodup_append.mp honce).2.1 url
    · intro m hm hk m' hm' heq
      subst hk
      have hback := Flood.not_back hsingle hreached
        (List.mem_append_right _ (mem_paths hm rfl))
      have hs := hsound m (List.mem_append_right _ hm)
      exact hback ((mem_forward_iff hw hs hu).mp ⟨m', hm', heq⟩)
    · have hknown : ∀ p ∈ paths k s.inFlight ++ paths k s.received,
          p.2 ∈ n.brokers.entries.map (fun e => e.1) := by
        intro p hp
        rw [← paths_append] at hp
        obtain ⟨m, hm, -, rfl⟩ := exists_of_mem_paths hp
        obtain ⟨tb, htb⟩ := Option.isSome_iff_exists.mp (hsound m hm).known
        exact List.mem_map_of_mem (f := fun e => e.1) (GoMap.mem_entries.mpr htb)
      have hle := Flood.length_le_of_mem hsingle hreached hknown
      rwa [← paths_append, length_paths, List.length_map] at hle

section Settle

-- the property in whatever order the messages are handled from here on
def SettlesOnce (net : GoMap ThinBroker) (s : System) : Prop :=
  ∀ (order : List Notification) (t : System),
    exec (step net) s (order.map .notifyContext) = some t → ∀ k, ForwardedOnce net t k

theorem updates_of_deliveries {net : GoMap ThinBroker} {order : List Notification}
    (h : exec (step net) s (order.map .notifyContext) = some t) : t.updates = s.updates := by
  induction order generalizing s with
  | nil =>
    obtain rfl := Option.some.inj h
    rfl
  | cons m rest ih =>
    obtain ⟨r, hr, hrest⟩ := Option.bind_eq_some_iff.mp h
    simp only [step] at hr
    split_ifs at hr
    obtain rfl := Option.some.inj hr
    have hu := ih hrest
    exact hu

theorem tracked_of_deliveries {order : List Notification} (hw : Wired n)
    (hrun : exec (step n.brokers) .initial labels = some s)
    (h : exec (step n.brokers) s (order.map .notifyContext) = some t) : Tracked n t := by
  have hall : exec (step n.brokers) .initial (labels ++ order.map .notifyContext) = some t := by
    rw [exec_append, hrun]
    exact h
  exact tracked_of_exec hw hall

-- as long as the update is under way there is one more message to handle
theorem exists_deliveries (h : SettlesOnce n.brokers s) (bound : Nat) :
    ∃ (order : List Notification) (t : System),
      exec (step n.brokers) s (order.map .notifyContext) = some t ∧
      (paths k t.inFlight = [] ∨ bound ≤ (paths k t.received).length) := by
  induction bound generalizing s with
  | zero => exact ⟨[], s, rfl, Or.inr (Nat.zero_le _)⟩
  | succ bound ih =>
    obtain ⟨order, t, ht, hsettled | hlong⟩ := ih h
    · exact ⟨order, t, ht, Or.inl hsettled⟩
    · by_cases hnil : paths k t.inFlight = []
      · exact ⟨order, t, ht, Or.inl hnil⟩
      · obtain ⟨p, hp⟩ := List.exists_mem_of_ne_nil _ hnil
        obtain ⟨m, hm, hk, -⟩ := exists_of_mem_paths hp
        refine ⟨order ++ [m], deliver n.brokers t m, ?_, Or.inr ?_⟩
        · rw [List.map_append, exec_append, ht]
          simp [exec, step, hm]
        · change bound + 1 ≤ (paths k (m :: t.received)).length
          rw [paths_cons, if_pos hk, List.length_cons]
          exact Nat.succ_le_succ hlong

theorem exists_settled (h : SettlesOnce n.brokers s) : ∃ (order : List Notification) (t : System),
    exec (step n.brokers) s (order.map .notifyContext) = some t ∧ paths k t.inFlight = [] := by
  obtain ⟨order, t, ht, hsettled | hlong⟩ :=
    exists_deliveries (k := k) h (n.brokers.entries.length + 1)
  · exact ⟨order, t, ht, hsettled⟩
  · have hstops := (h order t ht k).stops
    rw [← length_paths, paths_append, List.length_append] at hstops
    omega

theorem singleRoute_of_settlesOnce (hw : Wired n)
    (hrun : exec (step n.brokers) .initial labels = some s) (h : SettlesOnce n.brokers s) :
    ∀ u ∈ s.updates, SingleRoute n.brokers u := by
  intro u hu
  obtain ⟨k, hk⟩ := List.getElem?_of_mem hu
  obtain ⟨order, t, ht, hsettled⟩ := exists_settled (k := k) h
  have htrack := tracked_of_deliveries hw hrun ht
  have hk' : t.updates[k]? = some u := by rw [updates_of_deliveries ht, hk]
  have hreached := htrack.flood k u hk'
  rw [hsettled] at hreached
  have hforwarded := h order t ht k
  refine Flood.singleRoute_of_settled hreached ?_ ?_
  · rw [List.nodup_iff_count_le_one]
    intro url
    rw [count_paths]
    exact hforwarded.once url
  · intro p hp hback
    obtain ⟨m, hm, rfl, rfl⟩ := exists_of_mem_paths hp
    have hs := htrack.sound m (List.mem_append_right _ hm)
    obtain ⟨m', hm', hurl⟩ := (mem_forward_iff hw hs hk').mpr hback
    exact hforwarded.notBack m hm rfl m' hm' hurl

end Settle

theorem meets_iff_updates {net : GoMap ThinBroker}
    (hrun : exec (step net) .initial labels = some s) :
    Meets (step net) (OnSingleRoutes net) .initial labels ↔ ∀ u ∈ s.updates, SingleRoute net u := by
  refine exec_induction (motive := fun labels s => Meets (step net) (OnSingleRoutes net) .initial
    labels ↔ ∀ u ∈ s.updates, SingleRoute net u) hrun ?_ ?_
  · refine iff_of_true (fun js i s hp _ => by simp at hp) (by simp [System.initial])
  · intro js label r t _ hr ih ht
    rw [meets_concat hr, ih]
    cases label with
    | updateContext url ctxElem =>
      obtain ⟨tb, -, rfl⟩ := Option.map_eq_some_iff.mp ht
      simp [updateContext2LocalSite, OnSingleRoutes, or_imp, forall_and]
    | notifyContext m =>
      simp only [step] at ht
      split_ifs at ht
      obtain rfl := Option.some.inj ht
      exact and_iff_left trivial

theorem forwarded_once_iff {debugEnabled : Bool} {addresses : List Address}
    {placements : List Network.Label}
    (hplaced : exec (Network.step debugEnabled) (.initial addresses) placements = some n)
    (hrun : exec (step n.brokers) .initial labels = some s) :
    SettlesOnce n.brokers s ↔
      Meets (step n.brokers) (OnSingleRoutes n.brokers) .initial labels := by
  have hw := wired_of_exec hplaced
  rw [meets_iff_updates hrun]
  constructor
  · exact singleRoute_of_settlesOnce hw hrun
  · intro hroute order t ht k
    have htrack := tracked_of_deliveries hw hrun ht
    refine forwardedOnce_of_singleRoute hw htrack ?_ k
    rwa [updates_of_deliveries ht]

def AlwaysForwardedOnce : Prop :=
  ∀ debugEnabled addresses placements n labels s,
    exec (Network.step debugEnabled) (.initial addresses) placements = some n →
    exec (step n.brokers) .initial labels = some s → ∀ k, ForwardedOnce n.brokers s k

def siteA : Address := ⟨false, "a", 8080⟩

def siteB : Address := ⟨false, "b", 8080⟩

def urlA : String := getBrokerURL siteA

def urlB : String := getBrokerURL siteB

def allCars : SubscribeContextRequest :=
  { SubscribeContextRequest.zero with
    entities := [⟨"Car", false, ""⟩]
    reference := "http://app" }

def clientHeader : Header := ⟨"client", "", "", "", "", "", ""⟩

def carAt (id provider : String) : NotifyContextAvailabilityRequest :=
  ⟨"availability", [⟨⟨[⟨"Car", false, id⟩], [], [], provider⟩, ⟨200, "OK"⟩⟩], ⟨201, "OK"⟩⟩

-- a client asks at B for all cars, and B is told about the one at A
def oneWay : List Network.Label :=
  [.subscribe urlB "subB" clientHeader allCars,
    .notify urlB "subB" (carAt "car1" urlA) (fun _ => some "atA"), .accept urlB "atA"]

-- and the other way round
def bothWays : List Network.Label :=
  oneWay ++ [.subscribe urlA "subA" clientHeader allCars,
    .notify urlA "subA" (carAt "car2" urlB) (fun _ => some "atB"), .accept urlA "atB"]

def car1 : ContextElement := ⟨⟨"Car", false, "car1"⟩, "", [], []⟩

def carMessage (sender url sid : String) : Notification := ⟨0, sender, url, sid, car1⟩

def echo : List Label :=
  [.updateContext urlA car1, .notifyContext (carMessage urlA urlB "atA"),
    .notifyContext (carMessage urlB urlA "atB"), .notifyContext (carMessage urlA urlB "atA")]

theorem mutual_subscriptions_echo : ¬ AlwaysForwardedOnce := by
  intro h
  have hrun : ∃ n s,
      exec (Network.step false) (.initial [siteA, siteB]) bothWays = some n ∧
      exec (step n.brokers) .initial echo = some s ∧
      s.received.countP (fun m => m.update == 0 && m.url == urlB) = 2 := ⟨_, _, rfl, rfl, rfl⟩
  obtain ⟨n, s, hn, hs, htwo⟩ := hrun
  have hone := (h _ _ _ n _ s hn hs 0).once urlB
  omega

theorem oneWay_forwarded_once : ∃ n s,
    exec (Network.step false) (.initial [siteA, siteB]) oneWay = some n ∧
    exec (step n.brokers) .initial [.updateContext urlA car1] = some s ∧
    SettlesOnce n.brokers s := by
  have hrun : ∃ n s,
      exec (Network.step false) (.initial [siteA, siteB]) oneWay = some n ∧
      exec (step n.brokers) .initial [.updateContext urlA car1] = some s ∧
      s.updates = [⟨urlA, car1, car1.entity⟩] ∧
      routes n.brokers "car1" "*Car" urlA = [urlB] ∧
      routes n.brokers "car1" "*Car" urlB = [] := ⟨_, _, rfl, rfl, rfl, rfl, rfl⟩
  obtain ⟨n, s, hn, hs, hupdates, hA, hB⟩ := hrun
  refine ⟨n, s, hn, hs, (forwarded_once_iff hn hs).mpr ((meets_iff_updates hs).mpr ?_)⟩
  intro u hu
  obtain rfl : u = ⟨urlA, car1, car1.entity⟩ := by simpa [hupdates] using hu
  have htouched : ∀ a, Flood.Touched [urlB] (routes n.brokers "car1" "*Car") a → a = urlB := by
    intro a ha
    induction ha with
    | first h => exact List.mem_singleton.mp h
    | next _ hb ih =>
      rw [ih, hB] at hb
      cases hb
  change Flood.SingleRoute urlA (routes n.brokers "car1" "*Car" urlA)
    (routes n.brokers "car1" "*Car")
  rw [hA]
  refine ⟨List.nodup_singleton _, fun a ha => ?_, fun a ha b _ => ?_, fun a b ha hb _ _ _ => ?_,
    fun a ha => ?_⟩
  · rw [htouched a ha, hB]
    exact List.nodup_nil
  · rw [htouched a ha, hB]
    exact List.not_mem_nil
  · rw [htouched a ha, htouched b hb]
  · rw [List.mem_singleton.mp ha, hB]
    exact List.not_mem_nil

end FogFlow.Broker.Forwarding
