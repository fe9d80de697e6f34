import FogFlow.Broker.ThinBroker
import FogFlow.Library.Cells

namespace FogFlow.Broker.NotifyCache

open Ngsi Cells

-- what the range loop of a failed delivery starts its variable with
def zeroElement : ContextElement := ⟨⟨"", false, ""⟩, "", [], []⟩

-- the request has the notifyCache it came with, whose entries are pointers from then on
structure Subscription where
  request : SubscribeContextRequest
  notifyCache : List Nat

structure Message where
  ctxElems : List ContextElement
  subscriptionId : String
  url : String
  consumerNGSIVersion : String
  tenant : String
  ngsiLDDelivery : String
  ngsiLDNotificationPath : String
deriving DecidableEq, Repr

structure Post where
  message : Message
  accepted : Bool
deriving DecidableEq, Repr

structure Notifier where
  subscriptions : GoMap Subscription
  tmpNGSI10NotifyCache : List String
  cells : List ContextElement
  posts : List Post
  allocated : ∀ sid subscription, subscriptions.get sid = some subscription →
    Allocated cells subscription.notifyCache

def Notifier.initial : Notifier := ⟨∅, [], [], [], by simp⟩

def Notifier.cached (s : Notifier) (sid : String) : List ContextElement :=
  ((s.subscriptions.get sid).map (fun subscription =>
    load s.cells subscription.notifyCache)).getD []

def Notifier.request (s : Notifier) (sid : String) : Option SubscribeContextRequest :=
  (s.subscriptions.get sid).map Subscription.request

def Notifier.requiresReliability (s : Notifier) (sid : String) : Bool :=
  (s.request sid).any (fun subReq => subReq.subscriber.requireReliability)

def Notifier.put (s : Notifier) (sid : String) (subscription : Subscription)
    (cells : List ContextElement) (hp : s.cells <+: cells)
    (h : Allocated cells subscription.notifyCache) : Notifier where
  subscriptions := s.subscriptions.set sid subscription
  tmpNGSI10NotifyCache := s.tmpNGSI10NotifyCache
  cells := cells
  posts := s.posts
  allocated := by
    intro k sub hk
    rw [GoMap.get_set] at hk
    split_ifs at hk with heq
    · obtain rfl := Option.some.inj hk
      exact h
    · exact (s.allocated k sub hk).mono hp

def subscribe (sid : String) (subReq : SubscribeContextRequest) (s : Notifier) : Notifier :=
  s.put sid ⟨subReq, (new s.cells subReq.subscriber.notifyCache).2⟩
    (new s.cells subReq.subscriber.notifyCache).1 (prefix_new _ _) (allocated_new _ _)

def unsubscribe (sid : String) (s : Notifier) : Notifier where
  subscriptions := s.subscriptions.delete sid
  tmpNGSI10NotifyCache := s.tmpNGSI10NotifyCache
  cells := s.cells
  posts := s.posts
  allocated := fun k sub hk => s.allocated k sub (GoMap.get_of_get_delete hk).2

def messageTo (subReq : SubscribeContextRequest) (elements : List ContextElement) (sid : String) :
    Message where
  ctxElems := elements
  subscriptionId := sid
  url := subReq.reference
  consumerNGSIVersion := subReq.subscriber.destinationType
  tenant := subReq.subscriber.tenant
  ngsiLDDelivery := subReq.subscriber.ngsildDelivery
  ngsiLDNotificationPath := subReq.subscriber.ngsildNotificationPath

def emptyCache (sid : String) (subscription : Subscription) (s : Notifier) : Notifier :=
  s.put sid { subscription with notifyCache := [] } s.cells (List.prefix_refl _) (allocated_nil _)

def resendsCache (subscription : Subscription) : Bool :=
  subscription.request.subscriber.requireReliability && subscription.notifyCache.length > 0

def takeMessage (elements : List ContextElement) (sid : String) (s : Notifier) :
    Option (Message × Notifier) :=
  (s.subscriptions.get sid).map (fun subscription =>
    if resendsCache subscription then
      (messageTo subscription.request (elements ++ load s.cells subscription.notifyCache) sid,
        emptyCache sid subscription s)
    else (messageTo subscription.request elements sid, s))

def postNotifyContext (message : Message) (accepted : Bool) (s : Notifier) : Notifier :=
  { s with posts := s.posts ++ [⟨message, accepted⟩] }

def addToCache (elements : List ContextElement) (sid : String) (subscription : Subscription)
    (s : Notifier) (h : s.subscriptions.get sid = some subscription) : Notifier :=
  let taken := addressesOf zeroElement s.cells elements
  s.put sid { subscription with notifyCache := subscription.notifyCache ++ taken.2 } taken.1
    (prefix_addressesOf _ _ _)
    (((s.allocated sid subscription h).mono (prefix_addressesOf _ _ _)).append
      (allocated_addressesOf _ _ _))

def storeFailed (elements : List ContextElement) (sid : String) (s : Notifier) : Notifier :=
  match h : s.subscriptions.get sid with
  | none => s
  | some subscription =>
    if subscription.request.subscriber.requireReliability then
      { addToCache elements sid subscription s h with
        tmpNGSI10NotifyCache := s.tmpNGSI10NotifyCache ++ [sid] }
    else s

-- the result of the n-th post of a run is given by the network
def attempt (reply : Nat → Bool) (message : Message) (s : Notifier) : Bool × Notifier :=
  (reply s.posts.length, postNotifyContext message (reply s.posts.length) s)

def deliver (reply : Nat → Bool) (message : Message) (sid : String) (s : Notifier) : Notifier :=
  let first := attempt reply message s
  if first.1 then first.2
  else
    let second := attempt reply message first.2
    if second.1 then second.2 else storeFailed message.ctxElems sid second.2

def sendReliableNotifyToSubscriber (reply : Nat → Bool) (elements : List ContextElement)
    (sid : String) (s : Notifier) : Notifier :=
  if elements = [] then s
  else ((takeMessage elements sid s).map (fun taken => deliver reply taken.1 sid taken.2)).getD s

def sendReliableNotify (reply : Nat → Bool) (elements : List ContextElement) (sid : String)
    (s : Notifier) : Notifier :=
  if (s.subscriptions.get sid).isSome then sendReliableNotifyToSubscriber reply elements sid s
  else s

def hasCachedNotification (s : Notifier) (sid : String) : Bool :=
  (s.subscriptions.get sid).any resendsCache

def resend (reply : Nat → Bool) (s : Notifier) (sid : String) : Notifier :=
  if hasCachedNotification s sid then sendReliableNotify reply [] sid s else s

-- the part of OnTimer that is about notifications
def onTimer (reply : Nat → Bool) (s : Notifier) : Notifier :=
  s.tmpNGSI10NotifyCache.foldl (resend reply) { s with tmpNGSI10NotifyCache := [] }

section

variable {s t : Notifier} {sid k : String} {subscription : Subscription}
  {elements : List ContextElement} {message : Message}

theorem cached_of_get (h : s.subscriptions.get sid = some subscription) :
    s.cached sid = load s.cells subscription.notifyCache := by
  simp [Notifier.cached, h]

theorem cached_of_get_none (h : s.subscriptions.get sid = none) : s.cached sid = [] := by
  simp [Notifier.cached, h]

theorem requiresReliability_of_get (h : s.subscriptions.get sid = some subscription) :
    s.requiresReliability sid = subscription.request.subscriber.requireReliability := by
  simp [Notifier.requiresReliability, Notifier.request, h]

theorem requiresReliability_congr (h : s.request sid = t.request sid) :
    s.requiresReliability sid = t.requiresReliability sid := by
  simp [Notifier.requiresReliability, h]

theorem cached_put {cells : List ContextElement} (hp : s.cells <+: cells)
    (h : Allocated cells subscription.notifyCache) (k : String) :
    (s.put sid subscription cells hp h).cached k =
      if k = sid then load cells subscription.notifyCache else s.cached k := by
  simp only [Notifier.cached, Notifier.put, GoMap.get_set]
  split_ifs with heq
  · rfl
  · cases hk : s.subscriptions.get k with
    | none => rfl
    | some sub => exact load_mono (s.allocated k sub hk) hp

theorem request_put {cells : List ContextElement} (hp : s.cells <+: cells)
    (h : Allocated cells subscription.notifyCache) (k : String) :
    (s.put sid subscription cells hp h).request k =
      if k = sid then some subscription.request else s.request k := by
  simp only [Notifier.request, Notifier.put, GoMap.get_set]
  split_ifs <;> rfl

@[simp] theorem cached_subscribe (sid : String) (subReq : SubscribeContextRequest) (s : Notifier)
    (k : String) : (subscribe sid subReq s).cached k =
      if k = sid then subReq.subscriber.notifyCache else s.cached k := by
  simp only [subscribe, cached_put, load_new]

@[simp] theorem request_subscribe (sid : String) (subReq : SubscribeContextRequest) (s : Notifier)
    (k : String) : (subscribe sid subReq s).request k =
      if k = sid then some subReq else s.request k :=
  request_put _ _ k

@[simp] theorem cached_unsubscribe (sid : String) (s : Notifier) (k : String) :
    (unsubscribe sid s).cached k = if k = sid then [] else s.cached k := by
  simp only [Notifier.cached, unsubscribe, GoMap.get_delete]
  split_ifs <;> rfl

@[simp] theorem request_unsubscribe (sid : String) (s : Notifier) (k : String) :
    (unsubscribe sid s).request k = if k = sid then none else s.request k := by
  simp only [Notifier.request, unsubscribe, GoMap.get_delete]
  split_ifs <;> rfl

theorem notifyCache_eq_nil_iff (h : s.subscriptions.get sid = some subscription) :
    subscription.notifyCache = [] ↔ s.cached sid = [] := by
  rw [cached_of_get h, load_eq_nil_iff (s.allocated sid subscription h)]

theorem hasCachedNotification_iff (s : Notifier) (sid : String) :
    hasCachedNotification s sid = true ↔
      s.requiresReliability sid = true ∧ s.cached sid ≠ [] := by
  cases h : s.subscriptions.get sid with
  | none => simp [hasCachedNotification, h, cached_of_get_none h]
  | some subscription =>
    have hnil := notifyCache_eq_nil_iff h
    simp [hasCachedNotification, h, resendsCache, requiresReliability_of_get h,
      List.length_pos_iff, hnil]

-- what takeMessage and the sections after it leave as it was
structure Same (s t : Notifier) : Prop where
  request : ∀ k, t.request k = s.request k
  tmpNGSI10NotifyCache : t.tmpNGSI10NotifyCache = s.tmpNGSI10NotifyCache

def takenFrom (s : Notifier) (sid : String) : List ContextElement :=
  if s.requiresReliability sid then s.cached sid else []

structure Taken (s : Notifier) (elements : List ContextElement) (sid : String)
    (message : Message) (t : Notifier) : Prop extends Same s t where
  ctxElems : message.ctxElems = elements ++ takenFrom s sid
  subscriptionId : message.subscriptionId = sid
  posts : t.posts = s.posts
  emptied : s.requiresReliability sid = true → t.cached sid = []
  cached : ∀ k, k ≠ sid ∨ s.requiresReliability sid = false → t.cached k = s.cached k

theorem taken_of_takeMessage (h : takeMessage elements sid s = some (message, t)) :
    Taken s elements sid message t := by
  obtain ⟨subscription, hget, he⟩ := Option.map_eq_some_iff.mp h
  have hrel := requiresReliability_of_get hget
  have hcached := cached_of_get hget
  have hnil := notifyCache_eq_nil_iff hget
  split_ifs at he with hresend
  · obtain ⟨rfl, rfl⟩ := Prod.mk.inj he
    rw [resendsCache, Bool.and_eq_true] at hresend
    have hrel : s.requiresReliability sid = true := hrel.trans hresend.1
    refine ⟨⟨fun k => ?_, rfl⟩, ?_, rfl, rfl, fun _ => ?_, fun k hk => ?_⟩
    · rw [emptyCache, request_put]
      split_ifs with heq
      · rw [heq, Notifier.request, hget]
        rfl
      · rfl
    · simp [messageTo, takenFrom, hrel, hcached]
    · simp [emptyCache, cached_put]
    · rcases hk with hk | hk
      · simp [emptyCache, cached_put, hk]
      · simp [hrel] at hk
  · obtain ⟨rfl, rfl⟩ := Prod.mk.inj he
    have hempty : s.requiresReliability sid = true → s.cached sid = [] := by
      intro hr
      by_contra hne
      exact hresend (by simpa [resendsCache, ← hrel, hr, List.length_pos_iff, hnil] using hne)
    refine ⟨⟨fun _ => rfl, rfl⟩, ?_, rfl, rfl, hempty, fun _ _ => rfl⟩
    simp only [messageTo, takenFrom]
    split_ifs with hr
    · rw [hempty hr]
      exact (List.append_nil _).symm
    · exact (List.append_nil _).symm

theorem takeMessage_isSome (elements : List ContextElement) (sid : String) (s : Notifier) :
    (takeMessage elements sid s).isSome = (s.subscriptions.get sid).isSome := by
  simp [takeMessage]

structure Kept (s : Notifier) (elements : List ContextElement) (sid : String) (t : Notifier) :
    Prop where
  request : ∀ k, t.request k = s.request k
  posts : t.posts = s.posts
  cached : ∀ k, t.cached k = if k = sid then
    s.cached sid ++ List.replicate elements.length (elements.getLast?.getD zeroElement)
    else s.cached k
  tmpNGSI10NotifyCache : t.tmpNGSI10NotifyCache = s.tmpNGSI10NotifyCache ++ [sid]

theorem request_addToCache (h : s.subscriptions.get sid = some subscription) (k : String) :
    (addToCache elements sid subscription s h).request k = s.request k := by
  rw [addToCache, request_put]
  split_ifs with heq
  · rw [heq, Notifier.request, h]
    rfl
  · rfl

theorem cached_addToCache (h : s.subscriptions.get sid = some subscription) (k : String) :
    (addToCache elements sid subscription s h).cached k = if k = sid then
      s.cached sid ++ List.replicate elements.length (elements.getLast?.getD zeroElement)
      else s.cached k := by
  rw [addToCache, cached_put, load_append, load_addressesOf, cached_of_get h,
    load_mono (s.allocated sid subscription h) (prefix_addressesOf _ _ _)]

theorem storeFailed_of_unreliable (h : s.requiresReliability sid = false) :
    storeFailed elements sid s = s := by
  unfold storeFailed
  split
  · rfl
  · next subscription hget =>
    rw [requiresReliability_of_get hget] at h
    rw [if_neg (by simp [h])]

theorem kept_storeFailed (elements : List ContextElement)
    (h : s.requiresReliability sid = true) :
    Kept s elements sid (storeFailed elements sid s) := by
  unfold storeFailed
  split
  · next hget => simp [Notifier.requiresReliability, Notifier.request, hget] at h
  · next subscription hget =>
    rw [requiresReliability_of_get hget] at h
    rw [if_pos h]
    exact ⟨request_addToCache hget, rfl, cached_addToCache hget, rfl⟩

end

end FogFlow.Broker.NotifyCache
