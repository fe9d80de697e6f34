import FogFlow.Broker.Forwarding

namespace FogFlow.Broker.Forwarding

open Ngsi Execution Network

variable {n : Network.System} {s t : System} {tb : ThinBroker} {entities : Entities}
  {ctxElem : ContextElement} {url correlator sid : String} {checkSelectedAttributes : Bool}
  {k : Nat} {m : Notification}

-- a correlator that is missing or the id of a subscription at another broker
def Foreign (n : Network.System) (url correlator : String) : Prop :=
  correlator = "" ∨ ∃ d ∈ n.issued, d.2 = correlator ∧ d.1 ≠ url

theorem mem_issued_of_subscriberList {eid wildCard : String} (hw : Wired n)
    (htb : n.brokers.get url = some tb) (h : sid ∈ subscriberList tb eid wildCard) :
    (url, sid) ∈ n.issued := by
  unfold subscriberList at h
  split_ifs at h
  · simp at h
  · rcases List.mem_append.mp h with h | h <;> exact (hw.tables url tb htb).indexed _ _ h

theorem not_isProsumerSubscription (hw : Wired n) (hc : Foreign n url correlator)
    (hsid : (url, sid) ∈ n.issued) : isProsumerSubscription correlator sid = false := by
  obtain ⟨hplain, hne⟩ := hw.plain _ hsid
  rw [isProsumerSubscription, hplain, beq_eq_false_iff_ne]
  rcases hc with rfl | ⟨d, hd, rfl, hother⟩
  · exact hne.symm
  · rw [(hw.plain d hd).1]
    exact fun heq => hother (hw.own d hd _ hsid heq)

theorem not_beTheSame (hw : Wired n) (htb : n.brokers.get url = some tb) :
    beTheSame tb correlator sid = false := by
  rw [beTheSame, Option.any_eq_false]
  intro subscription hsub
  simp [((hw.tables url tb htb).placed sid subscription hsub).correlator]

-- with foreign correlators the echo check never skips a subscription
theorem notifySubscribers_of_foreign (hw : Wired n) (htb : n.brokers.get url = some tb)
    (hc : Foreign n url correlator) :
    notifySubscribers tb entities ctxElem correlator checkSelectedAttributes =
      (subscriberList tb ctxElem.entity.id ctxElem.getTypeWildCard).filterMap (fun sid =>
        (elementFor tb entities ctxElem checkSelectedAttributes sid).map (·, sid)) := by
  rw [notifySubscribers, List.filter_eq_self.mpr]
  intro sid hsid
  have hid := mem_issued_of_subscriberList hw htb hsid
  simp [not_isProsumerSubscription hw hc hid, not_beTheSame hw htb]

def path (m : Notification) : String × String := (m.sender, m.url)

def paths (k : Nat) (messages : List Notification) : List (String × String) :=
  (messages.filter (fun m => m.update == k)).map path

-- one message for each subscription id that has an element and a place to go to
def sendAll (net : GoMap ThinBroker) (k : Nat) (url : String) (tb : ThinBroker)
    (f : String → Option ContextElement) (sids : List String) : List Notification :=
  (sids.filterMap (fun sid => (f sid).map (·, sid))).filterMap (send net k url tb)

section SendAll

variable {net : GoMap ThinBroker} {f : String → Option ContextElement} {sids : List String}

theorem map_path_sendAll (hf : ∀ sid, ∃ element, f sid = some element) :
    (sendAll net k url tb f sids).map path =
      ((sids.filterMap (notifyURL tb)).filter (fun next => (net.get next).isSome)).map
        (fun next => (url, next)) := by
  induction sids with
  | nil => rfl
  | cons sid rest ih =>
    obtain ⟨element, he⟩ := hf sid
    have hsend : send net k url tb (element, sid) =
        ((notifyURL tb sid).filter (fun next => (net.get next).isSome)).map (fun next =>
          ⟨k, url, next, sid, element⟩) := rfl
    rw [sendAll] at ih
    rw [sendAll, List.filterMap_cons, he, Option.map_some, List.filterMap_cons,
      List.filterMap_cons, hsend]
    cases hnotify : notifyURL tb sid with
    | none => simpa using ih
    | some next =>
      cases hnet : (net.get next).isSome <;> simpa [Option.filter_some, hnet, path] using ih

theorem mem_sendAll (h : m ∈ sendAll net k url tb f sids) :
    m.update = k ∧ m.sender = url ∧ m.subscriptionId ∈ sids ∧
      f m.subscriptionId = some m.element ∧ notifyURL tb m.subscriptionId = some m.url ∧
      (net.get m.url).isSome := by
  obtain ⟨⟨element, sid⟩, hsent, hsend⟩ := List.mem_filterMap.mp h
  obtain ⟨sid', hsid, hf⟩ := List.mem_filterMap.mp hsent
  obtain ⟨element', he, heq⟩ := Option.map_eq_some_iff.mp hf
  obtain ⟨rfl, rfl⟩ := Prod.mk.inj heq
  obtain ⟨next, hnext, rfl⟩ := Option.map_eq_some_iff.mp hsend
  obtain ⟨hnotify, hnet⟩ := Option.filter_eq_some_iff.mp hnext
  exact ⟨rfl, rfl, hsid, he, hnotify, hnet⟩

end SendAll

-- no broker notifies itself
theorem ne_of_notifyURL {next : String} (hw : Wired n) (htb : n.brokers.get url = some tb)
    (hsid : (url, sid) ∈ n.issued) (h : notifyURL tb sid = some next) : next ≠ url := by
  obtain ⟨subscription, hsub, hdest⟩ := Option.bind_eq_some_iff.mp h
  have hp := (hw.tables url tb htb).placed sid subscription hsub
  split_ifs at hdest
  obtain rfl := Option.some.inj hdest
  exact fun heq => hp.reference.mp heq (hw.own _ hp.issued _ hsid rfl)

structure Sound (n : Network.System) (updates : List Update) (m : Notification) : Prop where
  issued : (m.sender, m.subscriptionId) ∈ n.issued
  away : m.url ≠ m.sender
  known : (n.brokers.get m.url).isSome
  carries : ∃ u, updates[m.update]? = some u ∧ m.element.entity = u.stored

structure Tracked (n : Network.System) (s : System) : Prop where
  sound : ∀ m ∈ s.inFlight ++ s.received, Sound n s.updates m
  flood : ∀ k u, s.updates[k]? = some u → Flood.Reached u.url (u.first n.brokers)
    (u.next n.brokers) (paths k s.inFlight) (paths k s.received)

theorem paths_append (messages more : List Notification) :
    paths k (messages ++ more) = paths k messages ++ paths k more := by
  simp [paths]

theorem paths_cons (m : Notification) (messages : List Notification) :
    paths k (m :: messages) =
      if m.update = k then path m :: paths k messages else paths k messages := by
  by_cases hk : m.update = k <;> simp [paths, hk]

theorem paths_of_update {messages : List Notification} (h : ∀ m ∈ messages, m.update = k) :
    paths k messages = messages.map path := by
  rw [paths, List.filter_eq_self.mpr]
  simpa using h

theorem paths_eq_nil {messages : List Notification} (h : ∀ m ∈ messages, m.update ≠ k) :
    paths k messages = [] := by
  rw [paths, List.filter_eq_nil_iff.mpr, List.map_nil]
  simpa using h

theorem paths_perm {messages messages' : List Notification} (h : messages.Perm messages') :
    (paths k messages).Perm (paths k messages') :=
  (h.filter _).map _

theorem Sound.lt {updates : List Update} (h : Sound n updates m) : m.update < updates.length := by
  obtain ⟨u, hu, -⟩ := h.carries
  exact (List.getElem?_eq_some_iff.mp hu).1

theorem Sound.append {updates : List Update} (h : Sound n updates m) (more : List Update) :
    Sound n (updates ++ more) m := by
  obtain ⟨u, hu, hentity⟩ := h.carries
  exact ⟨h.issued, h.away, h.known, u, by rw [List.getElem?_append_left h.lt, hu], hentity⟩

theorem sound_of_sendAll {f : String → Option ContextElement} {eid wildCard : String}
    {updates : List Update} {u : Update} (hw : Wired n) (htb : n.brokers.get url = some tb)
    (hu : updates[k]? = some u)
    (hf : ∀ sid element, f sid = some element → element.entity = u.stored)
    (h : m ∈ sendAll n.brokers k url tb f (subscriberList tb eid wildCard)) :
    Sound n updates m := by
  obtain ⟨rfl, rfl, hsid, helement, hnotify, hknown⟩ := mem_sendAll h
  have hid := mem_issued_of_subscriberList hw htb hsid
  exact ⟨hid, ne_of_notifyURL hw htb hid hnotify, hknown, u, hu, hf _ _ helement⟩

section Forward

def passOn (m : Notification) : String → Option ContextElement :=
  fun _ => some { m.element with type := "" }

theorem forward_eq {updates : List Update} (hw : Wired n) (h : Sound n updates m) :
    ∃ tb, n.brokers.get m.url = some tb ∧
      forward n.brokers s m = sendAll n.brokers m.update m.url tb (passOn m)
        (subscriberList tb m.element.entity.id m.element.entity.getTypeWildCard) := by
  obtain ⟨tb, htb⟩ := Option.isSome_iff_exists.mp h.known
  have hforeign : Foreign n m.url m.subscriptionId := Or.inr ⟨_, h.issued, rfl, h.away.symm⟩
  refine ⟨tb, htb, ?_⟩
  rw [forward, htb, Option.map_some, Option.getD_some, ngsiv1NotifyContext,
    notifySubscribers_of_foreign hw htb hforeign]
  rfl

-- a broker sends on along its routes for the stored entity
theorem map_path_forward {updates : List Update} {u : Update} (hw : Wired n)
    (h : Sound n updates m) (hu : m.element.entity = u.stored) :
    (forward n.brokers s m).map path = Flood.relay (u.next n.brokers) m.url := by
  obtain ⟨tb, htb, hforward⟩ := forward_eq (s := s) hw h
  have hpass : ∀ sid, ∃ element, passOn m sid = some element := fun _ => ⟨_, rfl⟩
  rw [hforward, map_path_sendAll hpass, Flood.relay, Update.next, routes, htb, hu]
  rfl

theorem update_of_mem_forward {updates : List Update} {m' : Notification} (hw : Wired n)
    (h : Sound n updates m) (hm' : m' ∈ forward n.brokers s m) : m'.update = m.update := by
  obtain ⟨tb, htb, hforward⟩ := forward_eq (s := s) hw h
  rw [hforward] at hm'
  exact (mem_sendAll hm').1

theorem sound_forward {updates : List Update} {m' : Notification} (hw : Wired n)
    (h : Sound n updates m) (hm' : m' ∈ forward n.brokers s m) : Sound n updates m' := by
  obtain ⟨tb, htb, hforward⟩ := forward_eq (s := s) hw h
  obtain ⟨u, hu, hentity⟩ := h.carries
  rw [hforward] at hm'
  refine sound_of_sendAll hw htb hu (fun sid element he => ?_) hm'
  rw [← Option.some.inj he]
  exact hentity

theorem tracked_deliver (hw : Wired n) (h : Tracked n s) (hm : m ∈ s.inFlight) :
    Tracked n (deliver n.brokers s m) := by
  have hsound := h.sound m (List.mem_append_left _ hm)
  constructor
  · intro m' hm'
    simp only [deliver, List.mem_append, List.mem_cons] at hm'
    rcases hm' with (hold | hnew) | rfl | hold
    · exact h.sound m' (List.mem_append_left _ (List.mem_of_mem_erase hold))
    · exact sound_forward hw hsound hnew
    · exact hsound
    · exact h.sound m' (List.mem_append_right _ hold)
  · intro k u hu
    have hperm : (paths k s.inFlight).Perm (paths k (m :: s.inFlight.erase m)) :=
      paths_perm (List.perm_cons_erase hm)
    have hreached := h.flood k u hu
    change Flood.Reached _ _ _ (paths k (s.inFlight.erase m ++ forward n.brokers s m))
      (paths k (m :: s.received))
    rw [paths_append]
    rw [paths_cons] at hperm ⊢
    by_cases hk : m.update = k
    · obtain ⟨u', hu', hentity⟩ := hsound.carries
      obtain rfl : u' = u := Option.some.inj (hu'.symm.trans (hk ▸ hu))
      rw [paths_of_update (fun m' hm' => (update_of_mem_forward hw hsound hm').trans hk),
        map_path_forward hw hsound hentity, if_pos hk]
      rw [if_pos hk] at hperm
      exact hreached.deliver hperm
    · have hother : ∀ m' ∈ forward n.brokers s m, m'.update ≠ k :=
        fun m' hm' => (update_of_mem_forward hw hsound hm').trans_ne hk
      rw [paths_eq_nil hother, List.append_nil, if_neg hk]
      rw [if_neg hk] at hperm
      exact hreached.perm hperm (List.Perm.refl _)

end Forward

section Launch

def elementOf (tb : ThinBroker) (s : System) (url : String) (ctxElem : ContextElement) :
    String → Option ContextElement :=
  elementFor tb (updateContextElement (s.entitiesOf url) ctxElem) ctxElem true

theorem elementOf_eq (sid : String) : elementOf tb s url ctxElem sid =
    some ((storedElement s url ctxElem).cloneWithSelectedAttributes
      (selectedAttributes tb sid)) := by
  simp [elementOf, elementFor, storedElement, get_updateContextElement]

def launched (n : Network.System) (s : System) (url : String) (ctxElem : ContextElement)
    (tb : ThinBroker) : List Notification :=
  sendAll n.brokers s.updates.length url tb (elementOf tb s url ctxElem)
    (subscriberList tb ctxElem.entity.id ctxElem.getTypeWildCard)

theorem inFlight_update (hw : Wired n) (htb : n.brokers.get url = some tb) :
    (updateContext2LocalSite n.brokers s url ctxElem tb).inFlight =
      s.inFlight ++ launched n s url ctxElem tb := by
  rw [updateContext2LocalSite, notifySubscribers_of_foreign hw htb (Or.inl rfl)]
  rfl

theorem map_path_launched (htb : n.brokers.get url = some tb) :
    (launched n s url ctxElem tb).map path =
      ((updateOf s url ctxElem).first n.brokers).map (fun next => (url, next)) := by
  have hroutes : (updateOf s url ctxElem).first n.brokers =
      ((subscriberList tb ctxElem.entity.id ctxElem.getTypeWildCard).filterMap
        (notifyURL tb)).filter (fun next => (n.brokers.get next).isSome) := by
    simp [Update.first, routes, updateOf, htb]
  rw [hroutes, launched, map_path_sendAll (fun sid => ⟨_, elementOf_eq sid⟩)]

theorem getElem?_concat {α : Type} {l : List α} {x v : α} (h : (l ++ [x])[k]? = some v) :
    l[k]? = some v ∨ k = l.length ∧ x = v := by
  rcases Nat.lt_trichotomy k l.length with hlt | rfl | hgt
  · rw [List.getElem?_append_left hlt] at h
    exact Or.inl h
  · exact Or.inr ⟨rfl, by simpa using h⟩
  · rw [List.getElem?_eq_none (by simpa [Nat.succ_le_iff] using hgt)] at h
    cases h

theorem sound_launched (hw : Wired n) (htb : n.brokers.get url = some tb)
    (hm : m ∈ launched n s url ctxElem tb) :
    Sound n (s.updates ++ [updateOf s url ctxElem]) m := by
  refine sound_of_sendAll (u := updateOf s url ctxElem) hw htb (by simp) ?_ hm
  intro sid element he
  rw [elementOf_eq] at he
  rw [← Option.some.inj he]
  rfl

theorem tracked_update (hw : Wired n) (h : Tracked n s) (htb : n.brokers.get url = some tb) :
    Tracked n (updateContext2LocalSite n.brokers s url ctxElem tb) := by
  have hin : (updateContext2LocalSite n.brokers s url ctxElem tb).inFlight =
      s.inFlight ++ launched n s url ctxElem tb := inFlight_update hw htb
  have hnew : ∀ m ∈ launched n s url ctxElem tb, m.update = s.updates.length :=
    fun m hm => (mem_sendAll hm).1
  constructor
  · intro m hm
    rw [hin] at hm
    rcases List.mem_append.mp hm with hm | hm
    · rcases List.mem_append.mp hm with hm | hm
      · exact (h.sound m (List.mem_append_left _ hm)).append _
      · exact sound_launched hw htb hm
    · exact (h.sound m (List.mem_append_right _ hm)).append _
  · intro k u hu
    change (s.updates ++ [updateOf s url ctxElem])[k]? = some u at hu
    rw [hin, paths_append]
    rcases getElem?_concat hu with hu | ⟨rfl, rfl⟩
    · have hlt : k < s.updates.length := (List.getElem?_eq_some_iff.mp hu).1
      have hother : ∀ m ∈ launched n s url ctxElem tb, m.update ≠ k :=
        fun m hm => (hnew m hm).trans_ne hlt.ne'
      rw [paths_eq_nil hother, List.append_nil]
      exact h.flood k u hu
    · have hold : ∀ messages, (∀ m ∈ messages, Sound n s.updates m) →
          paths s.updates.length messages = [] :=
        fun messages hs => paths_eq_nil (fun m hm => (hs m hm).lt.ne)
      rw [hold _ (fun m hm => h.sound m (List.mem_append_left _ hm)), List.nil_append,
        paths_of_update hnew, map_path_launched htb]
      change Flood.Reached _ _ _ _ (paths s.updates.length s.received)
      rw [hold _ (fun m hm => h.sound m (List.mem_append_right _ hm))]
      exact .launch

end Launch

end FogFlow.Broker.Forwarding
