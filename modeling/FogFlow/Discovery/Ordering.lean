import FogFlow.Discovery.Awareness
import FogFlow.Discovery.Sending
import FogFlow.Library.Delivery

namespace FogFlow.Discovery.Ordering

open Ngsi Execution

-- a run of deleteRegistration, which has notified the subscribers or not yet
structure Deletion where
  request : Nat
  eid : String
  address : Nat
  announced : Bool
deriving DecidableEq, Repr

-- discovery with its senders, the registrations and deletions numbered as they begin, and for each
-- call of sendNotify which of them its entities go back to
structure System where
  discovery : Discovery.System
  sending : Sending.System
  requests : List String
  applied : List Nat
  scans : List (Nat × Nat)
  deletions : List Deletion
  causes : List (String → Option Nat)

def System.init : System := ⟨.init, .init, [], [], [], [], []⟩

def itemOf (subscriptions : GoMap SubscribeContextAvailabilityRequest)
    (n : NotifyContextAvailabilityRequest) : Sending.CacheItem :=
  ⟨((subscriptions.get n.subscriptionId).map (·.reference)).getD "", n⟩

def System.notify (s : System) (notifies : List NotifyContextAvailabilityRequest)
    (cause : String → Option Nat) : System :=
  { s with
    sending := notifies.foldl (fun sending n =>
      sending.sendNotify (itemOf s.discovery.subscriptions n)) s.sending
    causes := s.causes ++ notifies.map (fun _ => cause) }

-- each message that this step of discovery has added is a call of sendNotify
def System.follow (s : System) (discovery : Discovery.System) (cause : String → Option Nat) :
    System :=
  { s with discovery }.notify (discovery.sent.drop s.discovery.sent.length) cause

-- what a CREATE says of an entity is due to the last request applied to it
def lastApplied (s : System) (eid : String) : Option Nat :=
  (s.applied.filter (fun request => s.requests[request]? == some eid)).getLast?

inductive Label where
  | subscribe (subID : String) (subReq : SubscribeContextAvailabilityRequest)
  | query (subID : String) (ranks : Ranks)
  | update (attrRank : String → Nat) (entity : EntityId) (registration : ContextRegistration)
  | scan (request : Nat) (ranks : Ranks)
  | retrieve (eid : String)
  | announce (request : Nat) (ranks : Ranks)
  | remove (request : Nat)
  | onTimer
  | run (i : Nat) (done : Bool)

variable (math : FloatMath) (matchString : MatchString)

def update (s : System) (entity : EntityId) (discovery : Discovery.System) : System :=
  let number := s.requests.length
  { s with
    discovery
    requests := s.requests ++ [entity.id]
    applied := s.applied ++ [number]
    scans := s.scans ++
      ((discovery.ctxRegistrationList.get entity.id).map (fun address => (number, address))).toList }

def retrieve (s : System) (eid : String) (address : Nat) (discovery : Discovery.System) : System :=
  { s with
    discovery
    requests := s.requests ++ [eid]
    deletions := s.deletions ++ [⟨s.requests.length, eid, address, false⟩] }

def remove (s : System) (request : Nat) (rest : List Deletion) (discovery : Discovery.System) :
    System :=
  { s with discovery, applied := s.applied ++ [request], deletions := rest }

def step (s : System) : Label → Option System
  | .subscribe subID subReq =>
      (Discovery.step math matchString s.discovery (.subscribe subID subReq)).map
        (fun discovery => { s with discovery })
  | .query subID ranks =>
      (Discovery.step math matchString s.discovery (.query subID ranks)).map
        (fun discovery => s.follow discovery (lastApplied s))
  | .update attrRank entity registration =>
      (Discovery.step math matchString s.discovery (.update attrRank entity registration)).map
        (update s entity)
  | .scan request ranks =>
      (Pool.take (fun scan => scan.1 == request) s.scans).bind (fun taken =>
        (Discovery.step math matchString s.discovery (.scan taken.1.2 ranks)).map (fun discovery =>
          { s with scans := taken.2 }.follow discovery (fun _ => some request)))
  | .retrieve eid =>
      match s.discovery.ctxRegistrationList.get eid with
      | some address =>
          (Discovery.step math matchString s.discovery (.retrieve eid)).map
            (retrieve s eid address)
      | none => some s
  | .announce request ranks =>
      (Pool.take (fun d => d.request == request && !d.announced) s.deletions).bind (fun taken =>
        (Discovery.step math matchString s.discovery
          (.announce taken.1.eid taken.1.address ranks)).map (fun discovery =>
            { s with deletions := { taken.1 with announced := true } :: taken.2 }.follow discovery
              (fun _ => some request)))
  | .remove request =>
      (Pool.take (fun d => d.request == request && d.announced) s.deletions).bind (fun taken =>
        (Discovery.step math matchString s.discovery (.remove taken.1.eid)).map
          (remove s request taken.2))
  | .onTimer => (Sending.step s.sending .onTimer).map (fun sending => { s with sending })
  | .run i done => (Sending.step s.sending (.run i done)).map (fun sending => { s with sending })

def About (url eid : String) (n : Sending.Notice) : Prop :=
  n.item.subscriberURL = url ∧ eid ∈ named n.item.notify

instance (url eid : String) (n : Sending.Notice) : Decidable (About url eid n) :=
  inferInstanceAs (Decidable (_ ∧ _))

def System.received (s : System) (url eid : String) : List Sending.Notice :=
  s.sending.delivered.filter (fun n => decide (About url eid n))

def System.waiting (s : System) : List Sending.Notice := s.sending.notifyCache ++ s.sending.held

def System.cause (s : System) (n : Sending.Notice) (eid : String) : Option Nat :=
  (s.causes[n.call]?).bind (fun cause => cause eid)

def Before (s : System) (a b : Nat) : Prop := [a, b].Sublist s.applied

-- the causes of what a subscriber receives about an entity were applied in the same order
def Ordered (s : System) : Prop :=
  ∀ url eid, (s.received url eid).Pairwise (fun m n =>
    ∀ a b, s.cause m eid = some a → s.cause n eid = some b → ¬ Before s b a)

structure Settled (s : System) (url eid : String) : Prop where
  scans : ∀ scan ∈ s.scans, s.requests[scan.1]? ≠ some eid
  deletions : ∀ d ∈ s.deletions, d.eid ≠ eid
  waiting : ∀ n ∈ s.waiting, ¬ About url eid n

-- a DELETE agrees with no registration, anything else with the one it reports
def Agrees (n : NotifyContextAvailabilityRequest) : Option EntityRegistration → Prop
  | none => n.errorCode.code = 410
  | some registration => n.errorCode.code ≠ 410 ∧ Reports n registration

structure InStep (s : System) : Prop where
  ordered : Ordered s
  current : ∀ url eid, Settled s url eid → ∀ n, (s.received url eid).getLast? = some n →
    Agrees n.item.notify (s.discovery.repository.get eid)

def Latest (requests : List String) (eid : String) (request : Nat) : Prop :=
  requests[request]? = some eid ∧ ∀ r, requests[r]? = some eid → r ≤ request

-- of two messages to one subscriber about one entity the first has the earlier cause
def NotLater (s : System) (m n : Sending.Notice) : Prop :=
  ∀ url eid, About url eid m → About url eid n → ∀ a b, s.cause m eid = some a →
    s.cause n eid = some b → a ≤ b

def ToldAbout (s : System) (url eid : String) : Prop := ∃ n ∈ s.sending.called, About url eid n

def ToldOf (s : System) (url eid : String) (request : Nat) : Prop :=
  ∃ n ∈ s.sending.called, About url eid n ∧ s.cause n eid = some request

def Pending (s : System) (request : Nat) : Prop :=
  (∃ scan ∈ s.scans, scan.1 = request) ∨
    ∃ d ∈ s.deletions, d.request = request ∧ d.announced = false

def Notified (s : System) (registration : EntityRegistration) (url : String) : Prop :=
  ∃ subID request, s.discovery.subscriptions.get subID = some request ∧
    Matches math matchString registration request ∧ request.reference = url

-- the message that the subscriber accepts when this goroutine goes on
def posted : Sending.Goroutine → Bool → Option Sending.Notice
  | .postNotify notice, true => some notice
  | .resend (item :: _) _, true => some item
  | _, _ => none

-- nothing about an entity begins while it is deleted, a scan tells nobody of a request who has
-- heard of a later one, all who have been told of an entity are told of the latest request about
-- it, and no post overtakes a message that waits
def Sequenced (s : System) : Label → Prop
  | .subscribe .. | .remove _ | .onTimer => True
  | .query subID _ => ∀ request, s.discovery.subscriptions.get subID = some request →
      ∀ d ∈ s.deletions, ∀ registration,
        s.discovery.repository.get d.eid = some registration →
          ¬ Matches math matchString registration request
  | .update _ entity _ => ∀ d ∈ s.deletions, d.eid ≠ entity.id
  | .scan request _ => ∀ address, (request, address) ∈ s.scans →
      let registration := s.discovery.objects address
      ∀ url, (Notified math matchString s registration url →
          (∀ m ∈ s.sending.delivered, About url registration.id m →
            ∀ a, s.cause m registration.id = some a → a ≤ request) ∧
          ∀ latest, Latest s.requests registration.id latest → latest ≠ request →
            ToldOf s url registration.id latest ∨ Pending s latest) ∧
        (Latest s.requests registration.id request → ToldAbout s url registration.id →
          Notified math matchString s registration url)
  | .retrieve eid => ∀ d ∈ s.deletions, d.eid ≠ eid
  | .announce request _ => ∀ d ∈ s.deletions, d.request = request →
      ∀ url, ToldAbout s url d.eid →
        Notified math matchString s (s.discovery.objects d.address) url
  | .run i done => ∀ g n, s.sending.running[i]? = some g → posted g done = some n →
      ∀ m ∈ s.waiting, NotLater s n m

section Requests

variable {requests : List String} {eid e : String} {r a : Nat}

theorem getElem?_concat_eq_some : (requests ++ [e])[r]? = some eid ↔
    requests[r]? = some eid ∨ r = requests.length ∧ e = eid := by
  rcases Nat.lt_trichotomy r requests.length with hlt | rfl | hgt
  · rw [List.getElem?_append_left hlt]
    exact ⟨Or.inl, fun h => h.elim id (fun h => absurd h.1 hlt.ne)⟩
  · simp
  · have hold : requests[r]? = none := List.getElem?_eq_none hgt.le
    have hnew : (requests ++ [e])[r]? = none := List.getElem?_eq_none (by simp; omega)
    simp [hold, hnew, hgt.ne']

theorem lt_of_getElem? (h : requests[r]? = some eid) : r < requests.length :=
  (List.getElem?_eq_some_iff.mp h).1

theorem latest_concat_self : Latest (requests ++ [e]) e requests.length := by
  refine ⟨by simp, fun r hr => ?_⟩
  rcases getElem?_concat_eq_some.mp hr with hold | ⟨rfl, -⟩
  · exact (lt_of_getElem? hold).le
  · exact le_refl _

theorem latest_concat_of_ne (hne : eid ≠ e) :
    Latest (requests ++ [e]) eid r ↔ Latest requests eid r := by
  have hsame : ∀ k : Nat, (requests ++ [e])[k]? = some eid ↔ requests[k]? = some eid := by
    intro k
    rw [getElem?_concat_eq_some]
    exact or_iff_left (fun h => hne h.2.symm)
  exact and_congr (hsame r) (forall_congr' (fun k => imp_congr_left (hsame k)))

theorem Latest.unique (h : Latest requests eid r) (ha : Latest requests eid a) : r = a :=
  le_antisymm (ha.2 r h.1) (h.2 a ha.1)

theorem latest_concat (h : Latest (requests ++ [e]) eid r) :
    eid = e ∧ r = requests.length ∨ eid ≠ e ∧ Latest requests eid r := by
  by_cases hne : eid = e
  · subst hne
    exact Or.inl ⟨rfl, h.unique latest_concat_self⟩
  · exact Or.inr ⟨hne, (latest_concat_of_ne hne).mp h⟩

theorem exists_latest (h : requests[r]? = some eid) : ∃ latest, Latest requests eid latest := by
  induction requests using List.reverseRecOn with
  | nil => simp at h
  | append_singleton requests e ih =>
    by_cases hne : eid = e
    · exact ⟨requests.length, hne ▸ latest_concat_self⟩
    · have hold := (getElem?_concat_eq_some.mp h).resolve_right (fun h => hne h.2.symm)
      obtain ⟨latest, hlatest⟩ := ih hold
      exact ⟨latest, (latest_concat_of_ne hne).mpr hlatest⟩

end Requests

def System.deleting (s : System) : List (Nat × String) :=
  s.deletions.map (fun d => (d.request, d.eid))

-- requests are applied in the order in which they begin, a deletion in progress is the latest
-- request about its entity, and a scan of the latest one reads the current registration
structure Tracked (s : System) : Prop where
  sound : Sound s.discovery
  ordered : s.applied.Pairwise (fun a b => s.requests[a]? = s.requests[b]? → a < b)
  known : ∀ r, r < s.requests.length ↔ r ∈ s.applied ∨ r ∈ s.deleting.map Prod.fst
  deletion : ∀ d ∈ s.deleting, Latest s.requests d.2 d.1 ∧ d.1 ∉ s.applied
  distinct : (s.deleting.map Prod.fst).Nodup
  scanned : ∀ scan ∈ s.scans, scan.1 ∈ s.applied ∧ scan.2 < s.discovery.fresh ∧
    s.requests[scan.1]? = some (s.discovery.objects scan.2).id ∧
    (Latest s.requests (s.discovery.objects scan.2).id scan.1 →
      s.discovery.ctxRegistrationList.get (s.discovery.objects scan.2).id = some scan.2)
  registered : ∀ eid, s.discovery.ctxRegistrationList.get eid ≠ none →
    ∃ r ∈ s.applied, s.requests[r]? = some eid

variable {math matchString} {s t : System} {discovery : Discovery.System}

theorem mem_deleting {d : Deletion} (h : d ∈ s.deletions) : (d.request, d.eid) ∈ s.deleting :=
  List.mem_map_of_mem h

theorem tracked_init : Tracked System.init := by
  refine ⟨sound_init, List.Pairwise.nil, ?_, ?_, List.nodup_nil, ?_, ?_⟩ <;>
    simp [System.init, System.deleting, Discovery.System.init]

-- nothing is registered, applied or begun
theorem Tracked.same (h : Tracked s) (hsound : Sound t.discovery)
    (hlist : t.discovery.ctxRegistrationList = s.discovery.ctxRegistrationList)
    (hobjects : t.discovery.objects = s.discovery.objects)
    (hfresh : t.discovery.fresh = s.discovery.fresh) (hrequests : t.requests = s.requests)
    (happlied : t.applied = s.applied) (hdeleting : t.deleting.Perm s.deleting)
    (hscans : ∀ scan ∈ t.scans, scan ∈ s.scans) : Tracked t := by
  refine ⟨hsound, ?_, fun r => ?_, fun d hd => ?_, ?_, fun scan hscan => ?_, fun eid hget => ?_⟩
  · rw [happlied, hrequests]
    exact h.ordered
  · rw [happlied, hrequests]
    exact (h.known r).trans (or_congr_right (hdeleting.map Prod.fst).mem_iff.symm)
  · rw [happlied, hrequests]
    exact h.deletion d (hdeleting.mem_iff.mp hd)
  · exact (hdeleting.map Prod.fst).nodup_iff.mpr h.distinct
  · rw [hlist, hobjects, hfresh, happlied, hrequests]
    exact h.scanned scan (hscans scan hscan)
  · rw [hlist] at hget
    rw [happlied, hrequests]
    exact h.registered eid hget

theorem id_updateEntity {d : Discovery.System} (attrRank : String → Nat) (entity : EntityId)
    (registration : ContextRegistration) {address : Nat} (hlt : address < d.fresh) :
    ((d.updateEntity attrRank entity registration).objects address).id =
      (d.objects address).id := by
  unfold Discovery.System.updateEntity
  cases d.ctxRegistrationList.get entity.id with
  | some other =>
    by_cases heq : address = other
    · simp [heq, updateExisting]
    · simp [heq]
  | none => simp [hlt.ne]

theorem fresh_updateEntity (d : Discovery.System) (attrRank : String → Nat) (entity : EntityId)
    (registration : ContextRegistration) :
    d.fresh ≤ (d.updateEntity attrRank entity registration).fresh := by
  unfold Discovery.System.updateEntity
  cases d.ctxRegistrationList.get entity.id with
  | some other => exact le_refl _
  | none => exact Nat.le_succ _

theorem tracked_update (h : Tracked s) {attrRank : String → Nat} {entity : EntityId}
    {registration : ContextRegistration} (hnone : ∀ d ∈ s.deletions, d.eid ≠ entity.id) :
    Tracked (update s entity (s.discovery.updateEntity attrRank entity registration)) := by
  have hsound : Sound (s.discovery.updateEntity attrRank entity registration) :=
    sound_updateEntity h.sound
  obtain ⟨address, haddress, -⟩ := scan_of_updateEntity (s := s.discovery) attrRank entity
    registration
  have hlt : ∀ r ∈ s.applied, r < s.requests.length := fun r hr => (h.known r).mpr (Or.inl hr)
  have hbelow : ∀ eid p, s.discovery.ctxRegistrationList.get eid = some p → p < s.discovery.fresh :=
    h.sound.below
  refine ⟨hsound, ?_, fun r => ?_, ?_, h.distinct, ?_, ?_⟩
  · refine List.pairwise_append.mpr ⟨h.ordered.imp_of_mem (fun ha hb hab heq => ?_),
      List.pairwise_singleton _ _, fun a ha b hb _ => ?_⟩
    · rw [update, List.getElem?_append_left (hlt _ ha), List.getElem?_append_left (hlt _ hb)] at heq
      exact hab heq
    · rw [List.mem_singleton.mp hb]
      exact hlt a ha
  · have hknown := h.known r
    have hnew : r < s.requests.length + 1 ↔ r < s.requests.length ∨ r = s.requests.length := by
      omega
    simp only [update, List.length_append, List.length_singleton, List.mem_append,
      List.mem_singleton]
    rw [hnew, hknown, or_right_comm]
    rfl
  · intro d hd
    have hold : d ∈ s.deleting := hd
    obtain ⟨hlatest, hnot⟩ := h.deletion d hold
    have hne : d.2 ≠ entity.id := by
      obtain ⟨deletion, hmem, rfl⟩ := List.mem_map.mp hold
      exact hnone deletion hmem
    refine ⟨(latest_concat_of_ne hne).mpr hlatest, fun hmem => ?_⟩
    rcases List.mem_append.mp hmem with hmem | hmem
    · exact hnot hmem
    · exact absurd (lt_of_getElem? hlatest.1) (by rw [List.mem_singleton.mp hmem]; omega)
  · intro scan hscan
    rcases List.mem_append.mp hscan with hold | hnew
    · obtain ⟨happlied, hfresh, hrequest, hget⟩ := h.scanned scan hold
      have hid : ((s.discovery.updateEntity attrRank entity registration).objects scan.2).id =
          (s.discovery.objects scan.2).id := id_updateEntity attrRank entity registration hfresh
      refine ⟨List.mem_append_left _ happlied,
        hfresh.trans_le (fresh_updateEntity _ attrRank entity registration), ?_, ?_⟩
      · exact getElem?_concat_eq_some.mpr (Or.inl (hrequest.trans (by rw [update, hid])))
      · intro hlatest
        dsimp only [update] at hlatest ⊢
        rw [hid] at hlatest ⊢
        rcases latest_concat hlatest with ⟨-, heq⟩ | ⟨hne, hlatest⟩
        · exact absurd (hlt _ happlied) (by omega)
        · rw [get_updateEntity_ne hne]
          exact hget hlatest
    · rw [haddress] at hnew
      obtain rfl := List.mem_singleton.mp hnew
      have hid := hsound.owned entity.id address haddress
      refine ⟨List.mem_append_right _ List.mem_cons_self, hsound.below _ _ haddress, ?_, fun _ => ?_⟩
      · dsimp only [update]
        rw [hid]
        simp
      · dsimp only [update]
        rw [hid]
        exact haddress
  · intro eid hget
    by_cases heid : eid = entity.id
    · exact ⟨s.requests.length, List.mem_append_right _ List.mem_cons_self, by simp [update, heid]⟩
    · dsimp only [update] at hget
      rw [get_updateEntity_ne heid] at hget
      obtain ⟨r, hr, hrequest⟩ := h.registered eid hget
      exact ⟨r, List.mem_append_left _ hr, getElem?_concat_eq_some.mpr (Or.inl hrequest)⟩

theorem tracked_retrieve (h : Tracked s) {eid : String} {address : Nat}
    (hsound : Sound discovery)
    (hlist : discovery.ctxRegistrationList = s.discovery.ctxRegistrationList)
    (hobjects : discovery.objects = s.discovery.objects)
    (hfresh : discovery.fresh = s.discovery.fresh) (hnone : ∀ d ∈ s.deletions, d.eid ≠ eid) :
    Tracked (retrieve s eid address discovery) := by
  have hlt : ∀ r ∈ s.applied, r < s.requests.length := fun r hr => (h.known r).mpr (Or.inl hr)
  have hdeleting : (retrieve s eid address discovery).deleting =
      s.deleting ++ [(s.requests.length, eid)] := by
    simp [retrieve, System.deleting]
  refine ⟨hsound, ?_, fun r => ?_, fun d hd => ?_, ?_, fun scan hscan => ?_, fun e hget => ?_⟩
  · refine h.ordered.imp_of_mem (fun ha hb hab heq => ?_)
    rw [retrieve, List.getElem?_append_left (hlt _ ha), List.getElem?_append_left (hlt _ hb)] at heq
    exact hab heq
  · have hknown := h.known r
    have hnew : r < s.requests.length + 1 ↔ r < s.requests.length ∨ r = s.requests.length := by
      omega
    rw [hdeleting]
    simp only [retrieve, List.length_append, List.length_singleton, List.map_append, List.mem_append,
      List.map_cons, List.map_nil, List.mem_singleton]
    rw [hnew, hknown, or_assoc]
  · rw [hdeleting] at hd
    rcases List.mem_append.mp hd with hold | hnew
    · obtain ⟨deletion, hmem, rfl⟩ := List.mem_map.mp hold
      obtain ⟨hlatest, hnot⟩ := h.deletion _ hold
      exact ⟨(latest_concat_of_ne (hnone deletion hmem)).mpr hlatest, hnot⟩
    · obtain rfl := List.mem_singleton.mp hnew
      exact ⟨latest_concat_self, fun hmem => absurd (hlt _ hmem) (lt_irrefl _)⟩
  · rw [hdeleting, List.map_append]
    refine List.nodup_append.mpr ⟨h.distinct, List.nodup_singleton _, fun a ha b hb => ?_⟩
    have hold := (h.known a).mpr (Or.inr ha)
    rw [List.mem_singleton.mp hb]
    exact hold.ne
  · obtain ⟨happlied, hbelow, hrequest, hget⟩ := h.scanned scan hscan
    dsimp only [retrieve]
    rw [hlist, hobjects, hfresh]
    refine ⟨happlied, hbelow, getElem?_concat_eq_some.mpr (Or.inl hrequest), fun hlatest => ?_⟩
    rcases latest_concat hlatest with ⟨-, heq⟩ | ⟨-, hlatest⟩
    · exact absurd (hlt _ happlied) (by omega)
    · exact hget hlatest
  · dsimp only [retrieve] at hget
    rw [hlist] at hget
    obtain ⟨r, hr, hrequest⟩ := h.registered e hget
    exact ⟨r, hr, getElem?_concat_eq_some.mpr (Or.inl hrequest)⟩

theorem tracked_remove (h : Tracked s) {d : Deletion} {rest : List Deletion}
    (hperm : s.deletions.Perm (d :: rest)) (hsound : Sound discovery)
    (hlist : discovery.ctxRegistrationList = s.discovery.ctxRegistrationList.delete d.eid)
    (hobjects : discovery.objects = s.discovery.objects)
    (hfresh : discovery.fresh = s.discovery.fresh) :
    Tracked (remove s d.request rest discovery) := by
  have hdeleting : s.deleting.Perm
      ((d.request, d.eid) :: (remove s d.request rest discovery).deleting) := hperm.map _
  obtain ⟨hlatest, hnot⟩ := h.deletion _ (hdeleting.mem_iff.mpr List.mem_cons_self)
  have hdistinct := (hdeleting.map Prod.fst).nodup_iff.mp h.distinct
  rw [List.map_cons, List.nodup_cons] at hdistinct
  refine ⟨hsound, ?_, fun r => ?_, fun e he => ?_, hdistinct.2, fun scan hscan => ?_, fun e hget => ?_⟩
  · refine List.pairwise_append.mpr ⟨h.ordered, List.pairwise_singleton _ _, fun a ha b hb heq => ?_⟩
    obtain rfl := List.mem_singleton.mp hb
    have hle : a ≤ d.request := hlatest.2 a (heq.trans hlatest.1)
    have hne : a ≠ d.request := fun heq => hnot (heq ▸ ha)
    omega
  · have happlied : r ∈ (remove s d.request rest discovery).applied ↔
        r ∈ s.applied ∨ r = d.request := by
      simp [remove]
    rw [happlied, or_assoc, ← List.mem_cons]
    exact (h.known r).trans (or_congr_right (hdeleting.map Prod.fst).mem_iff)
  · obtain ⟨hother, hnotApplied⟩ := h.deletion e (hdeleting.mem_iff.mpr (List.mem_cons_of_mem _ he))
    refine ⟨hother, fun hmem => ?_⟩
    rcases List.mem_append.mp hmem with hmem | hmem
    · exact hnotApplied hmem
    · exact hdistinct.1 (List.mem_map.mpr ⟨e, he, List.mem_singleton.mp hmem⟩)
  · obtain ⟨happlied, hbelow, hrequest, hget⟩ := h.scanned scan hscan
    dsimp only [remove]
    rw [hlist, hobjects, hfresh]
    refine ⟨List.mem_append_left _ happlied, hbelow, hrequest, fun hscanned => ?_⟩
    have hne : (s.discovery.objects scan.2).id ≠ d.eid := by
      intro heq
      rw [heq] at hscanned
      exact hnot (hscanned.unique hlatest ▸ happlied)
    rw [GoMap.get_delete, if_neg hne]
    exact hget hscanned
  · dsimp only [remove] at hget
    rw [hlist, GoMap.get_delete] at hget
    split_ifs at hget with heid
    · exact absurd rfl hget
    · obtain ⟨r, hr, hrequest⟩ := h.registered e hget
      exact ⟨r, List.mem_append_left _ hr, hrequest⟩

end FogFlow.Discovery.Ordering
