import FogFlow.Broker.DeliveryOrder
import FogFlow.Library.Pool

namespace FogFlow.Broker.Resending

open Ngsi Execution NotifyCache

inductive Stage where
  | lookUp (elements : List ContextElement)
  | take (elements : List ContextElement)
  | post (message : Message)
  | retry (message : Message)
  | keep (message : Message)

-- OnTimer goes on with the rest of its list when its send is over
inductive Call where
  | onTimer (remainItems : List String)
  | sending (sid : String) (stage : Stage) (rest : Option (List String))

structure System where
  notifier : Notifier
  calls : List Call

def System.initial : System := ⟨.initial, []⟩

inductive Label where
  | subscribeContext (header : Network.Header) (subReq : SubscribeContextRequest) (sid : String)
  | unsubscribeContext (sid : String)
  | sendReliableNotify (elements : List ContextElement) (sid : String)
  | onTimer
  | run (call : Nat) (accepted : Bool)

def resume (rest : Option (List String)) : List Call := (rest.map Call.onTimer).toList

def advance (accepted : Bool) (n : Notifier) : Call → Notifier × List Call
  | .onTimer [] => (n, [])
  | .onTimer (sid :: items) =>
    if hasCachedNotification n sid then (n, [.sending sid (.lookUp []) (some items)])
    else (n, [.onTimer items])
  | .sending sid (.lookUp elements) rest =>
    if (n.subscriptions.get sid).isSome then (n, [.sending sid (.take elements) rest])
    else (n, resume rest)
  | .sending sid (.take elements) rest =>
    if elements = [] then (n, resume rest)
    else match takeMessage elements sid n with
      | none => (n, resume rest)
      | some (message, t) => (t, [.sending sid (.post message) rest])
  | .sending sid (.post message) rest =>
    (postNotifyContext message accepted n,
      if accepted then resume rest else [.sending sid (.retry message) rest])
  | .sending sid (.retry message) rest =>
    (postNotifyContext message accepted n,
      if accepted then resume rest else [.sending sid (.keep message) rest])
  | .sending sid (.keep message) rest => (storeFailed message.ctxElems sid n, resume rest)

def step (myURL : String) (s : System) : Label → Option System
  | .subscribeContext header subReq sid =>
    some { s with notifier := subscribe sid (Network.takeRequest myURL header subReq) s.notifier }
  | .unsubscribeContext sid => some { s with notifier := unsubscribe sid s.notifier }
  | .sendReliableNotify elements sid =>
    some { s with calls := s.calls ++ [.sending sid (.lookUp elements) none] }
  | .onTimer =>
    some ⟨{ s.notifier with tmpNGSI10NotifyCache := [] },
      s.calls ++ [.onTimer s.notifier.tmpNGSI10NotifyCache]⟩
  | .run i accepted => s.calls[i]?.map (fun call =>
      ⟨(advance accepted s.notifier call).1,
        Pool.replace s.calls i (advance accepted s.notifier call).2⟩)

def Call.sendsFor (sid : String) : Call → Prop
  | .onTimer _ => False
  | .sending k _ _ => k = sid

def Listed (s : System) : Prop :=
  ∀ sid, (∀ call ∈ s.calls, ¬ call.sendsFor sid) → s.notifier.cached sid ≠ [] →
    sid ∈ s.notifier.tmpNGSI10NotifyCache

def posted (s t : Notifier) (sid : String) (element : ContextElement) : Prop :=
  ∃ post ∈ t.posts.drop s.posts.length, post.accepted = true ∧
    post.message.subscriptionId = sid ∧ element ∈ post.message.ctxElems

def Reachable (labels : List Label) : Prop :=
  ∀ i accepted, Label.run i accepted ∈ labels → accepted = true

-- every tick of the run that starts and ends with no call in progress
def TicksResend (myURL : String) (s₀ : System) (labels : List Label) : Prop :=
  ∀ js ks s t, js ++ (.onTimer :: ks) <+: labels → exec (step myURL) s₀ js = some s →
    exec (step myURL) s (.onTimer :: ks) = some t → s.calls = [] → t.calls = [] → Reachable ks →
    ∀ sid, t.notifier.cached sid = [] ∧
      ∀ element ∈ s.notifier.cached sid, posted s.notifier t.notifier sid element

-- no tick starts while a notification is cached, and no request brings a cache of its own
def NothingCached (s : System) : Label → Prop
  | .onTimer => ∀ sid, s.notifier.cached sid = []
  | .subscribeContext header subReq _ =>
    header.requireReliability ≠ "true" → subReq.subscriber.notifyCache = []
  | _ => True

section

variable {myURL : String} {accepted : Bool} {n : Notifier} {s t : System} {label : Label}
  {sid k : String}

theorem cached_takeRequest {header : Network.Header} {subReq : SubscribeContextRequest}
    (h : header.requireReliability ≠ "true" → subReq.subscriber.notifyCache = []) :
    (Network.takeRequest myURL header subReq).subscriber.notifyCache = [] := by
  simp only [Network.takeRequest, Network.takeSubscriber]
  split_ifs with hheader
  · rfl
  · exact h (by simpa using hheader)

def Recorded (n : Notifier) : Prop := ∀ sid, n.cached sid ≠ [] → sid ∈ n.tmpNGSI10NotifyCache

theorem cached_of_taken {elements : List ContextElement} {message : Message} {m : Notifier}
    (h : Taken n elements sid message m) (k : String) :
    m.cached k = [] ∨ m.cached k = n.cached k := by
  by_cases hk : k = sid
  · cases hrel : n.requiresReliability sid with
    | true => exact Or.inl (by rw [hk, h.emptied hrel])
    | false => exact Or.inr (h.cached k (Or.inr hrel))
  · exact Or.inr (h.cached k (Or.inl hk))

theorem Recorded.taken {elements : List ContextElement} {message : Message} {m : Notifier}
    (hn : Recorded n) (h : Taken n elements sid message m) : Recorded m := by
  intro k hk
  rw [h.tmpNGSI10NotifyCache]
  rcases cached_of_taken h k with hempty | hsame
  · exact absurd hempty hk
  · exact hn k (hsame ▸ hk)

theorem Recorded.storeFailed (hn : Recorded n) (elements : List ContextElement) (sid : String) :
    Recorded (storeFailed elements sid n) := by
  cases hrel : n.requiresReliability sid with
  | false =>
    rw [storeFailed_of_unreliable hrel]
    exact hn
  | true =>
    have hkept := kept_storeFailed elements hrel
    intro k hk
    rw [hkept.cached] at hk
    rw [hkept.tmpNGSI10NotifyCache, List.mem_append, List.mem_singleton]
    split_ifs at hk with heq
    · exact Or.inr heq
    · exact Or.inl (hn k hk)

theorem Recorded.advance (hn : Recorded n) (call : Call) :
    Recorded (advance accepted n call).1 := by
  cases call with
  | onTimer items =>
    cases items with
    | nil => exact hn
    | cons sid items =>
      simp only [Resending.advance]
      split_ifs <;> exact hn
  | sending sid stage rest =>
    cases stage with
    | lookUp elements =>
      simp only [Resending.advance]
      split_ifs <;> exact hn
    | take elements =>
      simp only [Resending.advance]
      split_ifs
      · exact hn
      · cases htake : takeMessage elements sid n with
        | none => exact hn
        | some taken => exact hn.taken (taken_of_takeMessage htake)
    | post message => exact hn
    | retry message => exact hn
    | keep message => exact hn.storeFailed message.ctxElems sid

theorem Recorded.step (hs : Recorded s.notifier) (hc : NothingCached s label)
    (ht : step myURL s label = some t) : Recorded t.notifier := by
  cases label with
  | subscribeContext header subReq sid =>
    obtain rfl := Option.some.inj ht
    intro k hk
    rw [cached_subscribe, cached_takeRequest hc] at hk
    split_ifs at hk with heq
    · exact absurd rfl hk
    · exact hs k hk
  | unsubscribeContext sid =>
    obtain rfl := Option.some.inj ht
    intro k hk
    rw [cached_unsubscribe] at hk
    split_ifs at hk with heq
    · exact absurd rfl hk
    · exact hs k hk
  | sendReliableNotify elements sid =>
    obtain rfl := Option.some.inj ht
    exact hs
  | onTimer =>
    obtain rfl := Option.some.inj ht
    exact fun k hk => absurd (hc k) hk
  | run i accepted =>
    obtain ⟨call, -, rfl⟩ := Option.map_eq_some_iff.mp ht
    exact hs.advance call

theorem recorded_initial : Recorded Notifier.initial := fun _ h => absurd rfl h

def Call.hasFailed : Call → Prop
  | .sending _ (.retry _) _ => True
  | .sending _ (.keep _) _ => True
  | _ => False

-- nothing is cached and nothing is about to be
structure Calm (s : System) : Prop where
  cached : ∀ sid, s.notifier.cached sid = []
  calls : ∀ call ∈ s.calls, ¬ call.hasFailed

theorem not_hasFailed_resume {rest : Option (List String)} {call : Call} (h : call ∈ resume rest) :
    ¬ call.hasFailed := by
  obtain ⟨items, -, rfl⟩ := Option.map_eq_some_iff.mp (Option.mem_toList.mp h)
  exact not_false

theorem calm_advance (hn : ∀ sid, n.cached sid = []) {call : Call} (hcall : ¬ call.hasFailed) :
    (∀ sid, (advance true n call).1.cached sid = []) ∧
      ∀ next ∈ (advance true n call).2, ¬ next.hasFailed := by
  cases call with
  | onTimer items =>
    cases items with
    | nil => exact ⟨hn, by simp [advance]⟩
    | cons sid items =>
      simp only [advance]
      split_ifs
      · exact ⟨hn, by simp [Call.hasFailed]⟩
      · exact ⟨hn, by simp [Call.hasFailed]⟩
  | sending sid stage rest =>
    cases stage with
    | lookUp elements =>
      simp only [advance]
      split_ifs
      · exact ⟨hn, by simp [Call.hasFailed]⟩
      · exact ⟨hn, fun _ => not_hasFailed_resume⟩
    | take elements =>
      simp only [advance]
      split_ifs
      · exact ⟨hn, fun _ => not_hasFailed_resume⟩
      · cases htake : takeMessage elements sid n with
        | none => exact ⟨hn, fun _ => not_hasFailed_resume⟩
        | some taken =>
          refine ⟨fun k => ?_, by simp [Call.hasFailed]⟩
          rcases cached_of_taken (taken_of_takeMessage htake) k with hempty | hsame
          · exact hempty
          · exact hsame.trans (hn k)
    | post message => exact ⟨hn, fun _ => not_hasFailed_resume⟩
    | retry message => exact absurd trivial hcall
    | keep message => exact absurd trivial hcall

theorem Calm.step (hs : Calm s) (hc : NothingCached s label)
    (hreach : ∀ i accepted, label = .run i accepted → accepted = true)
    (ht : step myURL s label = some t) : Calm t := by
  cases label with
  | subscribeContext header subReq sid =>
    obtain rfl := Option.some.inj ht
    refine ⟨fun k => ?_, hs.calls⟩
    rw [cached_subscribe, cached_takeRequest hc]
    split_ifs
    · rfl
    · exact hs.cached k
  | unsubscribeContext sid =>
    obtain rfl := Option.some.inj ht
    refine ⟨fun k => ?_, hs.calls⟩
    rw [cached_unsubscribe]
    split_ifs
    · rfl
    · exact hs.cached k
  | sendReliableNotify elements sid =>
    obtain rfl := Option.some.inj ht
    refine ⟨hs.cached, fun call hcall => ?_⟩
    rcases List.mem_append.mp hcall with hcall | hcall
    · exact hs.calls call hcall
    · obtain rfl := List.mem_singleton.mp hcall
      exact not_false
  | onTimer =>
    obtain rfl := Option.some.inj ht
    refine ⟨hs.cached, fun call hcall => ?_⟩
    rcases List.mem_append.mp hcall with hcall | hcall
    · exact hs.calls call hcall
    · obtain rfl := List.mem_singleton.mp hcall
      exact not_false
  | run i accepted =>
    obtain rfl := hreach i accepted rfl
    obtain ⟨call, hget, rfl⟩ := Option.map_eq_some_iff.mp ht
    have hnext := calm_advance hs.cached (hs.calls call (List.mem_of_getElem? hget))
    refine ⟨hnext.1, fun other hother => ?_⟩
    rcases Pool.mem_replace hother with hother | hother
    · exact hs.calls other hother
    · exact hnext.2 other hother

theorem exec_run {call : Call} {a : Bool} {labels : List Label} {m : Notifier}
    {next : List Call} {u : System} (hadvance : advance a n call = (m, next))
    (h : exec (step myURL) ⟨m, next⟩ labels = some u) :
    exec (step myURL) ⟨n, [call]⟩ (.run 0 a :: labels) = some u := by
  simpa [exec, step, Pool.replace, hadvance] using h

theorem advance_lookUp {elements : List ContextElement} {rest : Option (List String)}
    (h : (n.subscriptions.get sid).isSome = true) :
    advance accepted n (.sending sid (.lookUp elements) rest) =
      (n, [.sending sid (.take elements) rest]) := by
  simp [advance, h]

theorem advance_take {elements : List ContextElement} {rest : Option (List String)}
    {message : Message} {m : Notifier} (hne : elements ≠ [])
    (h : takeMessage elements sid n = some (message, m)) :
    advance accepted n (.sending sid (.take elements) rest) =
      (m, [.sending sid (.post message) rest]) := by
  simp [advance, hne, h]

-- a call that runs alone through its sections computes what the sequential function does
theorem exec_post (reply : Nat → Bool) (message : Message) (sid : String)
    (rest : Option (List String)) (n : Notifier) :
    ∃ labels, exec (step myURL) ⟨n, [.sending sid (.post message) rest]⟩ labels =
      some ⟨deliver reply message sid n, resume rest⟩ := by
  cases hfirst : reply n.posts.length with
  | true => exact ⟨[.run 0 true], exec_run rfl (by simp [deliver, attempt, hfirst])⟩
  | false =>
    cases hsecond : reply (n.posts.length + 1) with
    | true =>
      refine ⟨[.run 0 false, .run 0 true], exec_run rfl (exec_run rfl ?_)⟩
      simp [deliver, attempt, hfirst, postNotifyContext, hsecond]
    | false =>
      refine ⟨[.run 0 false, .run 0 false, .run 0 false],
        exec_run rfl (exec_run rfl (exec_run rfl ?_))⟩
      simp [deliver, attempt, hfirst, postNotifyContext, hsecond]

theorem exec_lookUp (reply : Nat → Bool) (elements : List ContextElement) (sid : String)
    (rest : Option (List String)) (n : Notifier) :
    ∃ labels, exec (step myURL) ⟨n, [.sending sid (.lookUp elements) rest]⟩ labels =
      some ⟨sendReliableNotify reply elements sid n, resume rest⟩ := by
  cases hsome : (n.subscriptions.get sid).isSome with
  | false =>
    have hadvance : advance false n (.sending sid (.lookUp elements) rest) = (n, resume rest) := by
      simp [advance, hsome]
    refine ⟨[.run 0 false], exec_run hadvance ?_⟩
    simp [sendReliableNotify, hsome]
  | true =>
    by_cases hne : elements = []
    · obtain rfl := hne
      rw [sendReliableNotify_nil]
      exact ⟨[.run 0 false, .run 0 false], exec_run (advance_lookUp hsome) (exec_run rfl rfl)⟩
    · have htakes := takeMessage_isSome elements sid n
      rw [hsome] at htakes
      obtain ⟨⟨message, m⟩, htake⟩ := Option.isSome_iff_exists.mp htakes
      obtain ⟨labels, hlabels⟩ := exec_post reply message sid rest m
      rw [sendReliableNotify_of_taken hne htake]
      exact ⟨.run 0 false :: .run 0 false :: labels,
        exec_run (advance_lookUp hsome) (exec_run (advance_take hne htake) hlabels)⟩

theorem exec_onTimer (reply : Nat → Bool) (items : List String) (n : Notifier) :
    ∃ labels, exec (step myURL) ⟨n, [.onTimer items]⟩ labels =
      some ⟨items.foldl (resend reply) n, []⟩ := by
  induction items generalizing n with
  | nil => exact ⟨[.run 0 false], exec_run rfl rfl⟩
  | cons sid items ih =>
    cases hcached : hasCachedNotification n sid with
    | false =>
      obtain ⟨labels, hlabels⟩ := ih n
      have hadvance : advance false n (.onTimer (sid :: items)) = (n, [.onTimer items]) := by
        simp [advance, hcached]
      refine ⟨.run 0 false :: labels, exec_run hadvance ?_⟩
      simpa [resend, hcached] using hlabels
    | true =>
      obtain ⟨first, hfirst⟩ := exec_lookUp reply [] sid (some items) n
      obtain ⟨labels, hlabels⟩ := ih (sendReliableNotify reply [] sid n)
      have hadvance : advance false n (.onTimer (sid :: items)) =
          (n, [.sending sid (.lookUp []) (some items)]) := by
        simp [advance, hcached]
      refine ⟨.run 0 false :: (first ++ labels), exec_run hadvance ?_⟩
      rw [exec_append, hfirst]
      simpa [resend, hcached, resume] using hlabels

theorem exec_tick (reply : Nat → Bool) (n : Notifier) :
    ∃ labels, exec (step myURL) ⟨n, []⟩ (.onTimer :: labels) = some ⟨onTimer reply n, []⟩ := by
  obtain ⟨labels, hlabels⟩ := exec_onTimer reply n.tmpNGSI10NotifyCache
    { n with tmpNGSI10NotifyCache := [] }
  exact ⟨labels, hlabels⟩

theorem Recorded.listed (h : Recorded s.notifier) : Listed s := fun sid _ hk => h sid hk

-- a tick loses what is cached for a subscription that nothing is sent to
theorem not_listed_of_onTimer {sid : String} (hcached : s.notifier.cached sid ≠ [])
    (hsend : ∀ call ∈ s.calls, ¬ call.sendsFor sid) (ht : step myURL s .onTimer = some t) :
    ¬ Listed t := by
  obtain rfl := Option.some.inj ht
  intro h
  have hnone : ∀ call ∈ s.calls ++ [.onTimer s.notifier.tmpNGSI10NotifyCache],
      ¬ call.sendsFor sid := by
    intro call hcall
    rcases List.mem_append.mp hcall with hcall | hcall
    · exact hsend call hcall
    · obtain rfl := List.mem_singleton.mp hcall
      exact not_false
  have hmem := h sid hnone hcached
  simp at hmem

theorem ticksResend_of_meets {labels : List Label} {s₀ : System}
    (hm : Meets (step myURL) NothingCached s₀ labels) : TicksResend myURL s₀ labels := by
  intro js ks s t hp hs ht hcalls _ hreach sid
  have hmks : Meets (step myURL) NothingCached s (.onTimer :: ks) := (hm.shorter hp).after hs
  have hcached : ∀ k, s.notifier.cached k = [] :=
    hmks [] .onTimer s (by simp) (exec_nil s)
  have hcalm : Calm t := by
    refine exec_induction_of_meets (motive := fun _ s => Calm s) hmks ht ⟨hcached, ?_⟩ ?_
    · simp [hcalls]
    · intro is i r u hpre _ hr hc hu
      refine hr.step hc (fun k accepted hi => ?_) hu
      have hmem : i ∈ Label.onTimer :: ks := hpre.subset (by simp)
      rcases List.mem_cons.mp hmem with heq | hmem
      · exact absurd (hi.symm.trans heq) (by simp)
      · exact hreach k accepted (hi ▸ hmem)
  exact ⟨hcalm.cached sid, by simp [hcached]⟩

theorem cached_notifications_resent (myURL : String) (labels : List Label)
    (hm : Meets (step myURL) NothingCached .initial labels) :
    Always (step myURL) Listed .initial labels ∧ TicksResend myURL .initial labels := by
  refine ⟨?_, ticksResend_of_meets hm⟩
  exact always_of_meets (I := fun _ s => Recorded s.notifier) hm recorded_initial
    (fun _ _ _ _ _ _ h hc ht => h.step hc ht) (fun _ _ h => h.listed)

end

def reliableHeader : Network.Header := { Network.brokerHeader with userAgent := "curl" }

def subscribed : Label :=
  .subscribeContext reliableHeader
    { SubscribeContextRequest.zero with reference := "http://10.0.0.7:8070" } "s1"

def failingSend : List Label :=
  [.sendReliableNotify [room "r1"] "s1", .run 0 true, .run 0 true, .run 0 false, .run 0 false,
    .run 0 true]

theorem cached_notifications_resent_room :
    Always (step "http://10.0.0.1:8070") Listed .initial (subscribed :: failingSend) ∧
      TicksResend "http://10.0.0.1:8070" .initial (subscribed :: failingSend) := by
  refine cached_notifications_resent "http://10.0.0.1:8070" _ ?_
  intro js label s hp _
  cases label with
  | onTimer =>
    have hmem : Label.onTimer ∈ subscribed :: failingSend := hp.subset (by simp)
    simp [subscribed, failingSend] at hmem
  | subscribeContext header subReq sid =>
    have hmem : Label.subscribeContext header subReq sid ∈ subscribed :: failingSend :=
      hp.subset (by simp)
    simp only [subscribed, failingSend, List.mem_cons, Label.subscribeContext.injEq,
      List.not_mem_nil, or_false, reduceCtorEq] at hmem
    obtain ⟨rfl, -, -⟩ := hmem
    exact fun h => absurd rfl h
  | unsubscribeContext sid => trivial
  | sendReliableNotify elements sid => trivial
  | run i accepted => trivial

-- the tick ends with the element still cached and the subscription in no list
theorem cached_notification_lost :
    ¬ ∀ (myURL : String) (labels : List Label),
      Always (step myURL) Listed .initial labels ∧ TicksResend myURL .initial labels := by
  intro h
  have hlisted := (h "http://10.0.0.1:8070" (subscribed :: failingSend ++
    [.onTimer, .run 0 true, .run 0 true, .run 0 true, .run 0 true])).1 _ _ (List.prefix_refl _) rfl
  have hnone : ∀ call ∈ ([] : List Call), ¬ call.sendsFor "s1" := by simp
  exact absurd (hlisted "s1" hnone (by decide)) (by decide)

end FogFlow.Broker.Resending
