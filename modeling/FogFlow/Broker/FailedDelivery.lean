import FogFlow.Broker.NotifyCache

namespace FogFlow.Broker.NotifyCache

open Ngsi Cells

section

variable {reply : Nat → Bool} {s t : Notifier} {sid k : String}
  {elements : List ContextElement} {message : Message}

theorem exists_takeMessage (elements : List ContextElement)
    (hrel : s.requiresReliability sid = true) :
    ∃ message t, takeMessage elements sid s = some (message, t) := by
  cases hget : s.subscriptions.get sid with
  | none => simp [Notifier.requiresReliability, Notifier.request, hget] at hrel
  | some subscription =>
    have hsome := takeMessage_isSome elements sid s
    rw [hget] at hsome
    obtain ⟨⟨message, t⟩, h⟩ := Option.isSome_iff_exists.mp hsome
    exact ⟨message, t, h⟩

theorem sendReliableNotifyToSubscriber_of_taken (hne : elements ≠ [])
    (h : takeMessage elements sid s = some (message, t)) :
    sendReliableNotifyToSubscriber reply elements sid s = deliver reply message sid t := by
  simp [sendReliableNotifyToSubscriber, hne, h]

def failedTwice (message : Message) (s : Notifier) : Notifier :=
  postNotifyContext message false (postNotifyContext message false s)

theorem deliver_of_failed (hfirst : reply s.posts.length = false)
    (hsecond : reply (s.posts.length + 1) = false) :
    deliver reply message sid s = storeFailed message.ctxElems sid (failedTwice message s) := by
  simp [deliver, attempt, hfirst, postNotifyContext, hsecond, failedTwice]

-- the last element of the message comes back once for each of its elements
theorem cached_of_failed (hrel : s.requiresReliability sid = true) (hne : elements ≠ [])
    (hfirst : reply s.posts.length = false) (hsecond : reply (s.posts.length + 1) = false) :
    (sendReliableNotifyToSubscriber reply elements sid s).cached sid =
      List.replicate (elements ++ s.cached sid).length
        ((elements ++ s.cached sid).getLast?.getD zeroElement) := by
  obtain ⟨message, t, h⟩ := exists_takeMessage elements hrel
  have htaken := taken_of_takeMessage h
  have helems : message.ctxElems = elements ++ s.cached sid := by
    rw [htaken.ctxElems, takenFrom, if_pos hrel]
  have hrelt : (failedTwice message t).requiresReliability sid = true :=
    (requiresReliability_congr (htaken.request sid)).trans hrel
  rw [sendReliableNotifyToSubscriber_of_taken hne h,
    deliver_of_failed (by rw [htaken.posts, hfirst]) (by rw [htaken.posts, hsecond]),
    (kept_storeFailed _ hrelt).cached, if_pos rfl, helems]
  have hempty : (failedTwice message t).cached sid = [] := htaken.emptied hrel
  rw [hempty, List.nil_append]

end

theorem failed_delivery_keeps_elements_iff (reply : Nat → Bool) (s : Notifier)
    (elements : List ContextElement) (sid : String) (hrel : s.requiresReliability sid = true)
    (hne : elements ≠ []) (hfirst : reply s.posts.length = false)
    (hsecond : reply (s.posts.length + 1) = false) :
    ((sendReliableNotifyToSubscriber reply elements sid s).cached sid).Perm
        (elements ++ s.cached sid) ↔
      ∀ a ∈ elements ++ s.cached sid, ∀ b ∈ elements ++ s.cached sid, a = b := by
  have hall : elements ++ s.cached sid ≠ [] := by simp [hne]
  have hlast : (elements ++ s.cached sid).getLast?.getD zeroElement ∈
      elements ++ s.cached sid := by
    rw [List.getLast?_eq_some_getLast hall]
    exact List.getLast_mem hall
  rw [cached_of_failed hrel hne hfirst hsecond]
  exact replicate_perm_iff hlast

def reliableRequest : SubscribeContextRequest :=
  { SubscribeContextRequest.zero with
    reference := "http://10.0.0.7:8070"
    subscriber := { Subscriber.zero with requireReliability := true } }

def room (id : String) : ContextElement := ⟨⟨"Room", false, id⟩, "", [], []⟩

def oneSubscriber : Notifier := subscribe "s1" reliableRequest .initial

theorem failed_delivery_keeps_room :
    ((sendReliableNotifyToSubscriber (fun _ => false) [room "r1"] "s1" oneSubscriber).cached
      "s1").Perm ([room "r1"] ++ oneSubscriber.cached "s1") :=
  (failed_delivery_keeps_elements_iff (fun _ => false) oneSubscriber [room "r1"] "s1" rfl
    (by simp) rfl rfl).mpr (by decide)

theorem failed_delivery_loses_room :
    ¬ ∀ (reply : Nat → Bool) (s : Notifier) (elements : List ContextElement) (sid : String),
      s.requiresReliability sid = true → elements ≠ [] → reply s.posts.length = false →
      reply (s.posts.length + 1) = false →
      ((sendReliableNotifyToSubscriber reply elements sid s).cached sid).Perm
        (elements ++ s.cached sid) := by
  intro h
  have hperm := h (fun _ => false) oneSubscriber [room "r1", room "r2"] "s1" rfl (by simp) rfl rfl
  rw [cached_of_failed rfl (by simp) rfl rfl] at hperm
  have hmem : room "r1" ∈ List.replicate 2 (room "r2") := hperm.mem_iff.mpr (by simp)
  exact absurd (List.eq_of_mem_replicate hmem) (by decide)

end FogFlow.Broker.NotifyCache
