import FogFlow.Broker.FailedDelivery
import FogFlow.Broker.Network
import FogFlow.Library.Execution

namespace FogFlow.Broker.NotifyCache

open Ngsi Execution

def postsTo (sid : String) (s : Notifier) : List Post :=
  s.posts.filter (fun post => post.message.subscriptionId == sid)

def received (sid : String) (s : Notifier) : List ContextElement :=
  ((postsTo sid s).filter Post.accepted).flatMap (fun post => post.message.ctxElems)

def lastDelivered (sid : String) (s : Notifier) : Bool := (postsTo sid s).getLast?.any Post.accepted

-- the elements handed in for the subscription that the run is about are recorded
structure System where
  notifier : Notifier
  handed : List ContextElement

inductive Label where
  | sendReliableNotify (elements : List ContextElement) (subID : String)
  | onTimer

def step (reply : Nat → Bool) (sid : String) (s : System) : Label → Option System
  | .sendReliableNotify elements subID =>
    some ⟨sendReliableNotify reply elements subID s.notifier,
      if subID = sid then s.handed ++ elements else s.handed⟩
  | .onTimer => some ⟨onTimer reply s.notifier, s.handed⟩

def ofEntity (eid : String) (elements : List ContextElement) : List ContextElement :=
  elements.filter (fun element => element.entity.id == eid)

structure InOrder (sid : String) (s : System) : Prop where
  order : ∀ eid, (ofEntity eid (received sid s.notifier)).Sublist (ofEntity eid s.handed)
  newest : lastDelivered sid s.notifier = true → ∀ eid,
    (ofEntity eid (received sid s.notifier)).getLast? = (ofEntity eid s.handed).getLast?

def delivers (reply : Nat → Bool) (s : Notifier) : Bool :=
  reply s.posts.length || reply (s.posts.length + 1)

-- no failed element waits in the cache when a delivery succeeds
def NothingCached (reply : Nat → Bool) (sid : String) (s : System) : Label → Prop
  | .sendReliableNotify elements subID => subID = sid → elements ≠ [] →
    delivers reply s.notifier = true → s.notifier.cached sid = []
  | .onTimer => True

structure Fresh (sid : String) (s : Notifier) : Prop where
  reliable : s.requiresReliability sid = true
  cached : s.cached sid = []
  posts : postsTo sid s = []

section

variable {reply : Nat → Bool} {s t : Notifier} {sid subID k : String}
  {elements : List ContextElement} {message : Message}

theorem fresh_subscribe {myURL : String} {header : Network.Header}
    {subReq : SubscribeContextRequest} (hheader : header.requireReliability = "true")
    (hposts : postsTo sid s = []) :
    Fresh sid (subscribe sid (Network.takeRequest myURL header subReq) s) where
  reliable := by
    simp [Notifier.requiresReliability, Network.takeRequest, Network.takeSubscriber, hheader]
  cached := by simp [Network.takeRequest, Network.takeSubscriber, hheader]
  posts := hposts

theorem sendReliableNotify_nil (sid : String) (s : Notifier) :
    sendReliableNotify reply [] sid s = s := by
  simp [sendReliableNotify, sendReliableNotifyToSubscriber]

-- the list that OnTimer sends is empty, so it posts nothing and the list to retry is gone
theorem onTimer_eq (s : Notifier) : onTimer reply s = { s with tmpNGSI10NotifyCache := [] } := by
  have hresend : ∀ (items : List String) (t : Notifier), items.foldl (resend reply) t = t := by
    intro items t
    induction items with
    | nil => rfl
    | cons sid items ih => simpa [List.foldl_cons, resend, sendReliableNotify_nil] using ih
  exact hresend _ _

theorem sendReliableNotify_of_taken (hne : elements ≠ [])
    (h : takeMessage elements sid s = some (message, t)) :
    sendReliableNotify reply elements sid s = deliver reply message sid t := by
  have hsome : (s.subscriptions.get sid).isSome = true := by
    rw [← takeMessage_isSome elements, h]
    rfl
  rw [sendReliableNotify, if_pos hsome, sendReliableNotifyToSubscriber_of_taken hne h]

theorem deliver_of_delivers (message : Message) (sid : String)
    (h : delivers reply s = true) :
    ∃ tried, (tried = s ∨ tried = postNotifyContext message false s) ∧
      deliver reply message sid s = postNotifyContext message true tried := by
  cases hfirst : reply s.posts.length with
  | true => exact ⟨s, Or.inl rfl, by simp [deliver, attempt, hfirst]⟩
  | false =>
    have hsecond : reply (s.posts.length + 1) = true := by simpa [delivers, hfirst] using h
    exact ⟨_, Or.inr rfl, by simp [deliver, attempt, hfirst, postNotifyContext, hsecond]⟩

theorem deliver_of_not_delivers (h : delivers reply s = false) :
    deliver reply message sid s = storeFailed message.ctxElems sid (failedTwice message s) := by
  rw [delivers, Bool.or_eq_false_iff] at h
  exact deliver_of_failed h.1 h.2

theorem posts_storeFailed (elements : List ContextElement) (sid : String) (s : Notifier) :
    (storeFailed elements sid s).posts = s.posts := by
  cases h : s.requiresReliability sid with
  | true => exact (kept_storeFailed _ h).posts
  | false => rw [storeFailed_of_unreliable h]

theorem request_storeFailed (elements : List ContextElement) (sid : String) (s : Notifier)
    (k : String) : (storeFailed elements sid s).request k = s.request k := by
  cases h : s.requiresReliability sid with
  | true => exact (kept_storeFailed _ h).request k
  | false => rw [storeFailed_of_unreliable h]

theorem cached_storeFailed_ne (elements : List ContextElement) (s : Notifier) (hk : k ≠ sid) :
    (storeFailed elements sid s).cached k = s.cached k := by
  cases h : s.requiresReliability sid with
  | true => rw [(kept_storeFailed _ h).cached, if_neg hk]
  | false => rw [storeFailed_of_unreliable h]

theorem postsTo_postNotifyContext (k : String) (message : Message) (accepted : Bool)
    (s : Notifier) : postsTo k (postNotifyContext message accepted s) =
      postsTo k s ++ if message.subscriptionId = k then [⟨message, accepted⟩] else [] := by
  simp only [postsTo, postNotifyContext, List.filter_append, List.filter_cons, List.filter_nil,
    beq_iff_eq]

-- a send to another subscription
structure Elsewhere (k : String) (s t : Notifier) : Prop where
  request : t.request k = s.request k
  cached : t.cached k = s.cached k
  posts : postsTo k t = postsTo k s

theorem elsewhere_of_ne (reply : Nat → Bool) (hk : k ≠ sid) (elements : List ContextElement)
    (s : Notifier) : Elsewhere k s (sendReliableNotify reply elements sid s) := by
  by_cases hne : elements = []
  · rw [hne, sendReliableNotify_nil]
    exact ⟨rfl, rfl, rfl⟩
  cases htake : takeMessage elements sid s with
  | none =>
    have hnone : (s.subscriptions.get sid).isSome = false := by
      rw [← takeMessage_isSome elements, htake]
      rfl
    rw [sendReliableNotify, if_neg (by simp [hnone])]
    exact ⟨rfl, rfl, rfl⟩
  | some taken =>
    obtain ⟨message, t⟩ := taken
    have htaken := taken_of_takeMessage htake
    have hsid : ¬ message.subscriptionId = k := by
      rw [htaken.subscriptionId]
      exact Ne.symm hk
    have hpost : ∀ accepted u, postsTo k (postNotifyContext message accepted u) = postsTo k u := by
      intro accepted u
      rw [postsTo_postNotifyContext, if_neg hsid, List.append_nil]
    have hposts : postsTo k t = postsTo k s := by simp only [postsTo, htaken.posts]
    rw [sendReliableNotify_of_taken hne htake]
    cases hd : delivers reply t with
    | true =>
      obtain ⟨tried, rfl | rfl, he⟩ := deliver_of_delivers message sid hd
      · rw [he]
        exact ⟨htaken.request k, htaken.cached k (Or.inl hk), (hpost _ _).trans hposts⟩
      · rw [he]
        exact ⟨htaken.request k, htaken.cached k (Or.inl hk),
          (hpost _ _).trans ((hpost _ _).trans hposts)⟩
    | false =>
      rw [deliver_of_not_delivers hd]
      refine ⟨?_, ?_, ?_⟩
      · rw [request_storeFailed]
        exact htaken.request k
      · rw [cached_storeFailed_ne _ _ hk]
        exact htaken.cached k (Or.inl hk)
      · simp only [postsTo, posts_storeFailed]
        exact (hpost _ _).trans ((hpost _ _).trans hposts)

structure Delivered (s : Notifier) (elements : List ContextElement) (sid : String)
    (t : Notifier) : Prop where
  request : t.request sid = s.request sid
  cached : t.cached sid = []
  received : received sid t = received sid s ++ (elements ++ s.cached sid)
  last : lastDelivered sid t = true

structure Undelivered (s : Notifier) (elements : List ContextElement) (sid : String)
    (t : Notifier) : Prop where
  request : t.request sid = s.request sid
  cached : t.cached sid ≠ []
  received : received sid t = received sid s
  last : lastDelivered sid t = false

theorem received_post_accepted {u : Notifier} (h : message.subscriptionId = sid) :
    received sid (postNotifyContext message true u) = received sid u ++ message.ctxElems := by
  simp [received, postsTo_postNotifyContext, h]

theorem received_post_failed {u : Notifier} :
    received sid (postNotifyContext message false u) = received sid u := by
  rw [received, postsTo_postNotifyContext]
  split_ifs <;> simp [received]

theorem lastDelivered_post {accepted : Bool} {u : Notifier} (h : message.subscriptionId = sid) :
    lastDelivered sid (postNotifyContext message accepted u) = accepted := by
  simp [lastDelivered, postsTo_postNotifyContext, h]

theorem delivered_of_delivers (hrel : s.requiresReliability sid = true) (hne : elements ≠ [])
    (hd : delivers reply s = true) :
    Delivered s elements sid (sendReliableNotify reply elements sid s) := by
  obtain ⟨message, t, htake⟩ := exists_takeMessage elements hrel
  have htaken := taken_of_takeMessage htake
  have helems : message.ctxElems = elements ++ s.cached sid := by
    rw [htaken.ctxElems, takenFrom, if_pos hrel]
  have hreceived : received sid t = received sid s := by
    simp only [received, postsTo, htaken.posts]
  have hdt : delivers reply t = true := by rwa [delivers, htaken.posts]
  obtain ⟨tried, htried, he⟩ := deliver_of_delivers message sid hdt
  rw [sendReliableNotify_of_taken hne htake, he]
  have hsame : tried.request sid = t.request sid ∧ tried.cached sid = t.cached sid ∧
      received sid tried = received sid t := by
    rcases htried with rfl | rfl
    · exact ⟨rfl, rfl, rfl⟩
    · exact ⟨rfl, rfl, received_post_failed⟩
  refine ⟨hsame.1.trans (htaken.request sid), hsame.2.1.trans (htaken.emptied hrel), ?_,
    lastDelivered_post htaken.subscriptionId⟩
  rw [received_post_accepted htaken.subscriptionId, hsame.2.2, hreceived, helems]

theorem undelivered_of_not_delivers (hrel : s.requiresReliability sid = true)
    (hne : elements ≠ []) (hd : delivers reply s = false) :
    Undelivered s elements sid (sendReliableNotify reply elements sid s) := by
  obtain ⟨message, t, htake⟩ := exists_takeMessage elements hrel
  have htaken := taken_of_takeMessage htake
  have hdt : delivers reply t = false := by rwa [delivers, htaken.posts]
  have hrelt : (failedTwice message t).requiresReliability sid = true :=
    (requiresReliability_congr (htaken.request sid)).trans hrel
  have hkept := kept_storeFailed message.ctxElems hrelt
  rw [sendReliableNotify_of_taken hne htake, deliver_of_not_delivers hdt]
  refine ⟨(hkept.request sid).trans (htaken.request sid), ?_, ?_, ?_⟩
  · rw [hkept.cached, if_pos rfl]
    simp [htaken.ctxElems, hne]
  · simp only [received, postsTo, hkept.posts]
    exact received_post_failed.trans (received_post_failed.trans (by
      simp only [received, postsTo, htaken.posts]))
  · simp only [lastDelivered, postsTo, hkept.posts]
    exact lastDelivered_post htaken.subscriptionId

end

-- until the first failure everything handed in is received, after it nothing more
structure UpTo (sid : String) (s : System) : Prop where
  reliable : s.notifier.requiresReliability sid = true
  soFar : (s.notifier.cached sid = [] ∧ received sid s.notifier = s.handed) ∨
    (s.notifier.cached sid ≠ [] ∧ (received sid s.notifier).Sublist s.handed ∧
      lastDelivered sid s.notifier = false)

variable {reply : Nat → Bool} {sid : String} {s t : System} {label : Label}

theorem UpTo.inOrder (h : UpTo sid s) : InOrder sid s := by
  rcases h.soFar with ⟨-, heq⟩ | ⟨-, hsub, hlast⟩
  · exact ⟨fun eid => by rw [heq], fun _ eid => by rw [heq]⟩
  · refine ⟨fun eid => hsub.filter _, fun hdelivered => ?_⟩
    rw [hlast] at hdelivered
    exact absurd hdelivered (by decide)

theorem upTo_start {n : Notifier} (h : Fresh sid n) : UpTo sid ⟨n, []⟩ :=
  ⟨h.reliable, Or.inl ⟨h.cached, by simp [received, h.posts]⟩⟩

theorem UpTo.step (h : UpTo sid s) (hc : NothingCached reply sid s label)
    (ht : step reply sid s label = some t) : UpTo sid t := by
  cases label with
  | onTimer =>
    obtain rfl := Option.some.inj ht
    simp only [onTimer_eq]
    exact ⟨h.reliable, h.soFar⟩
  | sendReliableNotify elements subID =>
    obtain rfl := Option.some.inj ht
    by_cases hsid : subID = sid
    · obtain rfl := hsid
      rw [if_pos rfl]
      by_cases hne : elements = []
      · rw [hne, sendReliableNotify_nil, List.append_nil]
        exact h
      cases hd : delivers reply s.notifier with
      | true =>
        have hcached := hc rfl hne hd
        have hsent := delivered_of_delivers h.reliable hne hd
        have hreceived : received subID s.notifier = s.handed := by
          rcases h.soFar with ⟨-, heq⟩ | ⟨hne, -⟩
          · exact heq
          · exact absurd hcached hne
        refine ⟨(requiresReliability_congr hsent.request).trans h.reliable,
          Or.inl ⟨hsent.cached, ?_⟩⟩
        rw [hsent.received, hcached, hreceived, List.append_nil]
      | false =>
        have hsent := undelivered_of_not_delivers h.reliable hne hd
        refine ⟨(requiresReliability_congr hsent.request).trans h.reliable,
          Or.inr ⟨hsent.cached, ?_, hsent.last⟩⟩
        rw [hsent.received]
        rcases h.soFar with ⟨-, heq⟩ | ⟨-, hsub, -⟩
        · rw [heq]
          exact List.sublist_append_left _ _
        · exact hsub.trans (List.sublist_append_left _ _)
    · rw [if_neg hsid]
      have helse := elsewhere_of_ne reply (Ne.symm hsid) elements s.notifier
      refine ⟨(requiresReliability_congr helse.request).trans h.reliable, ?_⟩
      simp only [helse.cached, received, helse.posts, lastDelivered]
      exact h.soFar

theorem deliveries_in_order (reply : Nat → Bool) (sid : String) (n : Notifier)
    (labels : List Label) (hfresh : Fresh sid n)
    (hm : Meets (step reply sid) (NothingCached reply sid) ⟨n, []⟩ labels) :
    Always (step reply sid) (InOrder sid) ⟨n, []⟩ labels :=
  always_of_meets (I := fun _ s => UpTo sid s) hm (upTo_start hfresh)
    (fun _ _ _ _ _ _ h hc ht => h.step hc ht) (fun _ _ h => h.inOrder)

def roomWith (name : String) : ContextElement :=
  ⟨⟨"Room", false, "r1"⟩, "", [⟨name, "boolean", .null, []⟩], []⟩

theorem fresh_oneSubscriber : Fresh "s1" oneSubscriber := ⟨rfl, rfl, rfl⟩

theorem nothingCached_rooms :
    Meets (step (fun n => n == 0) "s1") (NothingCached (fun n => n == 0) "s1")
      ⟨oneSubscriber, []⟩ ([.sendReliableNotify [roomWith "open"] "s1"] ++
        [.sendReliableNotify [roomWith "shut"] "s1"]) :=
  (meets_concat rfl).mpr
    ⟨meets_singleton.mpr (fun _ _ _ => rfl), fun _ _ h => absurd h (by decide)⟩

theorem deliveries_in_order_rooms :
    Always (step (fun n => n == 0) "s1") (InOrder "s1") ⟨oneSubscriber, []⟩
      [.sendReliableNotify [roomWith "open"] "s1", .sendReliableNotify [roomWith "shut"] "s1"] :=
  deliveries_in_order (fun n => n == 0) "s1" oneSubscriber _ fresh_oneSubscriber
    nothingCached_rooms

def OneEntity (eid sid : String) (labels : List Label) : Prop :=
  ∀ elements, Label.sendReliableNotify elements sid ∈ labels →
    ∀ element ∈ elements, element.entity.id = eid

-- the first update fails twice, and the second message has it behind the newer one
theorem deliveries_out_of_order :
    ¬ ∀ (reply : Nat → Bool) (sid eid : String) (n : Notifier) (labels : List Label),
      Fresh sid n → OneEntity eid sid labels →
      Always (step reply sid) (InOrder sid) ⟨n, []⟩ labels := by
  intro h
  have hone : OneEntity "r1" "s1"
      [.sendReliableNotify [roomWith "open"] "s1", .sendReliableNotify [roomWith "shut"] "s1"] := by
    intro elements hmem element hel
    simp only [List.mem_cons, Label.sendReliableNotify.injEq, and_true, List.not_mem_nil,
      or_false] at hmem
    rcases hmem with rfl | rfl
    · obtain rfl := List.mem_singleton.mp hel
      rfl
    · obtain rfl := List.mem_singleton.mp hel
      rfl
  have hout := h (fun n => decide (2 ≤ n)) "s1" "r1" oneSubscriber _ fresh_oneSubscriber hone
    _ _ (List.prefix_refl _) rfl
  exact absurd (hout.order "r1") (by decide)

end FogFlow.Broker.NotifyCache
