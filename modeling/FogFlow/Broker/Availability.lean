import FogFlow.Library.Execution
import FogFlow.Library.Pool
import FogFlow.Ngsi.Context

namespace FogFlow.Broker

open Ngsi

-- the maps of the broker under subLinks_lock
structure SubLinks where
  main2Other : GoMap (List String)
  availabilitySub2MainSub : GoMap String
  tmpNGSI9NotifyCache : GoMap NotifyContextAvailabilityRequest

def SubLinks.empty : SubLinks := ⟨∅, ∅, ∅⟩

def SubLinks.addOther (links : SubLinks) (sid otherSubID : String) : SubLinks :=
  { links with main2Other := links.main2Other.set sid (links.main2Other.slice sid ++ [otherSubID]) }

-- the sections of SubscribeContextAvailability before and after the cached message is handled
def SubLinks.record (links : SubLinks) (sid subscriptionId : String) :
    SubLinks × Option NotifyContextAvailabilityRequest :=
  ({ links.addOther sid subscriptionId with
      availabilitySub2MainSub := links.availabilitySub2MainSub.set subscriptionId sid },
    links.tmpNGSI9NotifyCache.get subscriptionId)

def SubLinks.cache (links : SubLinks) (req : NotifyContextAvailabilityRequest) : SubLinks :=
  { links with tmpNGSI9NotifyCache := links.tmpNGSI9NotifyCache.set req.subscriptionId req }

def SubLinks.clear (links : SubLinks) (subscriptionId : String) : SubLinks :=
  { links with tmpNGSI9NotifyCache := links.tmpNGSI9NotifyCache.delete subscriptionId }

-- the section of NGSIV1_NotifyContextAvailability
def SubLinks.lookUp (links : SubLinks) (req : NotifyContextAvailabilityRequest) :
    SubLinks × Option String :=
  match links.availabilitySub2MainSub.get req.subscriptionId with
  | some mainSubID => (links, some mainSubID)
  | none => (links.cache req, none)

namespace Availability

open Execution

abbrev Call := String × NotifyContextAvailabilityRequest

-- the calls of SubscribeContextAvailability and NGSIV1_NotifyContextAvailability in progress, the
-- subscriptions that discovery has issued and what has become of the messages
structure System where
  links : SubLinks
  requested : List String
  issued : GoMap String
  answered : List (String × String)
  forwarding : List (String × Call)
  clearing : List String
  received : List NotifyContextAvailabilityRequest
  handling : List Call
  handled : List Call
  overwritten : List NotifyContextAvailabilityRequest

def System.initial : System := ⟨.empty, [], ∅, [], [], [], [], [], [], []⟩

inductive Label where
  | request (sid : String)
  | refuse (sid : String)
  | answer (sid subscriptionId : String)
  | record (subscriptionId : String)
  | forward (subscriptionId : String)
  | clear (subscriptionId : String)
  | arrive (req : NotifyContextAvailabilityRequest)
  | handle (call : Call)
deriving DecidableEq, Repr

-- discovery takes a new uuid for every subscription
def answer (s : System) (sid subscriptionId : String) : Option System :=
  if s.issued.get subscriptionId = none ∧ subscriptionId ≠ "" then
    (Pool.take (· == sid) s.requested).map (fun call =>
      { s with
        requested := call.2
        issued := s.issued.set subscriptionId sid
        answered := (sid, subscriptionId) :: s.answered })
  else none

def record (s : System) (subscriptionId : String) : Option System :=
  (Pool.take (fun call => call.2 == subscriptionId) s.answered).map (fun call =>
    let recorded := s.links.record call.1.1 subscriptionId
    match recorded.2 with
    | some notifyMessage =>
        { s with
          links := recorded.1
          answered := call.2
          forwarding := (subscriptionId, call.1.1, notifyMessage) :: s.forwarding }
    | none => { s with links := recorded.1, answered := call.2 })

def forward (s : System) (subscriptionId : String) : Option System :=
  (Pool.take (fun call => call.1 == subscriptionId) s.forwarding).map (fun call =>
    { s with
      forwarding := call.2
      handled := call.1.2 :: s.handled
      clearing := subscriptionId :: s.clearing })

def clear (s : System) (subscriptionId : String) : Option System :=
  (Pool.take (· == subscriptionId) s.clearing).map (fun call =>
    { s with links := s.links.clear subscriptionId, clearing := call.2 })

def lost (links : SubLinks) (req : NotifyContextAvailabilityRequest) :
    Option NotifyContextAvailabilityRequest :=
  match links.availabilitySub2MainSub.get req.subscriptionId with
  | some _ => none
  | none => links.tmpNGSI9NotifyCache.get req.subscriptionId

-- discovery notifies about the subscriptions that it has issued
def arrive (s : System) (req : NotifyContextAvailabilityRequest) : Option System :=
  if req.isProsumerRegistration then some s
  else if s.issued.get req.subscriptionId = none then none
  else
    let found := s.links.lookUp req
    some { s with
      links := found.1
      received := req :: s.received
      handling := (found.2.map (fun mainSubID => (mainSubID, req))).toList ++ s.handling
      overwritten := (lost s.links req).toList ++ s.overwritten }

def handle (s : System) (call : Call) : Option System :=
  (Pool.take (· == call) s.handling).map (fun taken =>
    { s with handling := taken.2, handled := call :: s.handled })

def step (s : System) : Label → Option System
  | .request sid => some { s with requested := sid :: s.requested }
  | .refuse sid =>
      (Pool.take (· == sid) s.requested).map (fun call => { s with requested := call.2 })
  | .answer sid subscriptionId => answer s sid subscriptionId
  | .record subscriptionId => record s subscriptionId
  | .forward subscriptionId => forward s subscriptionId
  | .clear subscriptionId => clear s subscriptionId
  | .arrive req => arrive s req
  | .handle call => handle s call

-- the calls for this availability subscription have all passed their message on
structure Settled (s : System) (subscriptionId : String) : Prop where
  answered : ∀ sid, (sid, subscriptionId) ∉ s.answered
  forwarding : ∀ call, (subscriptionId, call) ∉ s.forwarding
  handling : ∀ call ∈ s.handling, call.2.subscriptionId ≠ subscriptionId

def HandledOnce (s : System) (subscriptionId sid : String) : Prop :=
  ∀ req, req.subscriptionId = subscriptionId →
    s.handled.count (sid, req) = s.received.count req ∧
      ∀ call ∈ s.handled, call.2 = req → call.1 = sid

-- a message of this subscription finds the link recorded or its slot in the cache empty
def Unhurried (subscriptionId : String) (s : System) : Label → Prop
  | .arrive req => req.subscriptionId = subscriptionId → req.isProsumerRegistration = false →
      s.links.availabilitySub2MainSub.get subscriptionId = none →
        s.links.tmpNGSI9NotifyCache.get subscriptionId = none
  | _ => True

structure Linked (s : System) : Prop where
  answered : ∀ sid k, (sid, k) ∈ s.answered →
    s.issued.get k = some sid ∧ s.links.availabilitySub2MainSub.get k = none
  distinct : (s.answered.map Prod.snd).Nodup
  unlinked : ∀ k sid, s.issued.get k = some sid →
    s.links.availabilitySub2MainSub.get k = none → (sid, k) ∈ s.answered
  linked : ∀ k sid, s.links.availabilitySub2MainSub.get k = some sid → s.issued.get k = some sid
  forwarding : ∀ k call, (k, call) ∈ s.forwarding → call.2.subscriptionId = k ∧
    s.links.availabilitySub2MainSub.get k = some call.1
  clearing : ∀ k ∈ s.clearing, s.links.availabilitySub2MainSub.get k ≠ none
  calls : ∀ call, call ∈ s.handling ∨ call ∈ s.handled →
    s.links.availabilitySub2MainSub.get call.2.subscriptionId = some call.1
  cached : ∀ k req, s.links.tmpNGSI9NotifyCache.get k = some req → req.subscriptionId = k

@[simp] theorem record_links (links : SubLinks) (sid subscriptionId k : String) :
    (links.record sid subscriptionId).1.availabilitySub2MainSub.get k =
      if k = subscriptionId then some sid else links.availabilitySub2MainSub.get k :=
  GoMap.get_set _ _ _ _

@[simp] theorem record_cache (links : SubLinks) (sid subscriptionId : String) :
    (links.record sid subscriptionId).1.tmpNGSI9NotifyCache = links.tmpNGSI9NotifyCache := rfl

@[simp] theorem clear_links (links : SubLinks) (subscriptionId : String) :
    (links.clear subscriptionId).availabilitySub2MainSub = links.availabilitySub2MainSub := rfl

@[simp] theorem clear_cache (links : SubLinks) (subscriptionId k : String) :
    (links.clear subscriptionId).tmpNGSI9NotifyCache.get k =
      if k = subscriptionId then none else links.tmpNGSI9NotifyCache.get k :=
  GoMap.get_delete _ _ _

theorem lookUp_linked {links : SubLinks} {req : NotifyContextAvailabilityRequest}
    {mainSubID : String} (h : links.availabilitySub2MainSub.get req.subscriptionId =
      some mainSubID) : links.lookUp req = (links, some mainSubID) := by
  simp [SubLinks.lookUp, h]

theorem lookUp_unlinked {links : SubLinks} {req : NotifyContextAvailabilityRequest}
    (h : links.availabilitySub2MainSub.get req.subscriptionId = none) :
    links.lookUp req = (links.cache req, none) := by
  simp [SubLinks.lookUp, h]

theorem linked_answer {s t : System} {sid subscriptionId : String} (h : Linked s)
    (hs : answer s sid subscriptionId = some t) : Linked t := by
  unfold answer at hs
  split_ifs at hs with hnew
  obtain ⟨⟨-, requested⟩, -, rfl⟩ := Option.map_eq_some_iff.mp hs
  have hlink : s.links.availabilitySub2MainSub.get subscriptionId = none := by
    cases hl : s.links.availabilitySub2MainSub.get subscriptionId with
    | none => rfl
    | some m => simpa [hnew.1] using h.linked _ _ hl
  have hkeep : ∀ k m, s.issued.get k = some m →
      (s.issued.set subscriptionId sid).get k = some m := by
    intro k m hk
    rw [GoMap.get_set_ne _ _ (fun he => by simp [he, hnew.1] at hk), hk]
  refine ⟨?_, ?_, ?_, fun k m hk => hkeep k m (h.linked k m hk), h.forwarding, h.clearing, h.calls,
    h.cached⟩
  · intro m k hk
    rcases List.mem_cons.mp hk with he | hk
    · obtain ⟨rfl, rfl⟩ := Prod.mk.inj he
      exact ⟨GoMap.get_set_self _ _ _, hlink⟩
    · obtain ⟨hi, hl⟩ := h.answered m k hk
      exact ⟨hkeep k m hi, hl⟩
  · refine List.nodup_cons.mpr ⟨fun hmem => ?_, h.distinct⟩
    obtain ⟨⟨m, k⟩, hk, rfl⟩ := List.mem_map.mp hmem
    simpa [hnew.1] using (h.answered m k hk).1
  · intro k m hk hl
    rw [GoMap.get_set] at hk
    split_ifs at hk with he
    · rw [he, Option.some.inj hk]
      exact List.mem_cons_self
    · exact List.mem_cons_of_mem _ (h.unlinked k m hk hl)

theorem linked_record {s t : System} {subscriptionId : String} (h : Linked s)
    (hs : record s subscriptionId = some t) : Linked t := by
  obtain ⟨⟨⟨sid, k⟩, answered⟩, htake, rfl⟩ := Option.map_eq_some_iff.mp hs
  obtain rfl : k = subscriptionId := by simpa using Pool.take_sat htake
  have hperm := Pool.take_perm htake
  have hnd := (hperm.map Prod.snd).nodup_iff.mp h.distinct
  rw [List.map_cons, List.nodup_cons] at hnd
  obtain ⟨hissued, hnone⟩ := h.answered sid k (Pool.mem_of_take htake)
  have hkeep : ∀ j m, s.links.availabilitySub2MainSub.get j = some m →
      (s.links.record sid k).1.availabilitySub2MainSub.get j = some m := by
    intro j m hj
    rw [record_links, if_neg (fun he => by simp [he, hnone] at hj), hj]
  have hlinked : Linked { s with links := (s.links.record sid k).1, answered := answered } := by
    refine ⟨?_, hnd.2, ?_, ?_, ?_, ?_, ?_, h.cached⟩
    · intro m j hj
      obtain ⟨hi, hl⟩ := h.answered m j (Pool.mem_of_mem_rest htake hj)
      refine ⟨hi, ?_⟩
      rw [record_links, if_neg, hl]
      rintro rfl
      exact hnd.1 (List.mem_map.mpr ⟨_, hj, rfl⟩)
    · intro j m hi hl
      rw [record_links] at hl
      split_ifs at hl with hj
      refine (List.mem_cons.mp (hperm.mem_iff.mp (h.unlinked j m hi hl))).resolve_left ?_
      exact fun he => hj (Prod.mk.inj he).2
    · intro j m hl
      rw [record_links] at hl
      split_ifs at hl with hj
      · rw [hj, ← Option.some.inj hl, hissued]
      · exact h.linked j m hl
    · exact fun j call hc => ⟨(h.forwarding j call hc).1, hkeep _ _ (h.forwarding j call hc).2⟩
    · intro j hj
      obtain ⟨m, hm⟩ := Option.ne_none_iff_exists'.mp (h.clearing j hj)
      simp [hkeep j m hm]
    · exact fun call hc => hkeep _ _ (h.calls call hc)
  cases hcache : (s.links.record sid k).2 with
  | none => simpa only [hcache] using hlinked
  | some notifyMessage =>
    simp only [hcache]
    refine { hlinked with forwarding := ?_ }
    intro j call hc
    rcases List.mem_cons.mp hc with he | hc
    · obtain ⟨rfl, rfl⟩ := Prod.mk.inj he
      exact ⟨h.cached _ _ hcache, by simp⟩
    · exact hlinked.forwarding j call hc

theorem linked_forward {s t : System} {subscriptionId : String} (h : Linked s)
    (hs : forward s subscriptionId = some t) : Linked t := by
  obtain ⟨⟨⟨k, call⟩, forwarding⟩, htake, rfl⟩ := Option.map_eq_some_iff.mp hs
  obtain rfl : k = subscriptionId := by simpa using Pool.take_sat htake
  obtain ⟨hk, hl⟩ := h.forwarding k call (Pool.mem_of_take htake)
  refine ⟨h.answered, h.distinct, h.unlinked, h.linked,
    fun j c hc => h.forwarding j c (Pool.mem_of_mem_rest htake hc), ?_, ?_, h.cached⟩
  · intro j hj
    rcases List.mem_cons.mp hj with rfl | hj
    · simp [hl]
    · exact h.clearing j hj
  · rintro c (hc | hc)
    · exact h.calls c (Or.inl hc)
    · rcases List.mem_cons.mp hc with rfl | hc
      · rw [hk, hl]
      · exact h.calls c (Or.inr hc)

theorem linked_clear {s t : System} {subscriptionId : String} (h : Linked s)
    (hs : clear s subscriptionId = some t) : Linked t := by
  obtain ⟨⟨k, clearing⟩, htake, rfl⟩ := Option.map_eq_some_iff.mp hs
  refine ⟨h.answered, h.distinct, h.unlinked, h.linked, h.forwarding,
    fun j hj => h.clearing j (Pool.mem_of_mem_rest htake hj), h.calls, ?_⟩
  intro j req hj
  rw [clear_cache] at hj
  split_ifs at hj
  exact h.cached j req hj

theorem linked_arrive {s t : System} {req : NotifyContextAvailabilityRequest} (h : Linked s)
    (hs : arrive s req = some t) : Linked t := by
  unfold arrive at hs
  split_ifs at hs
  · exact Option.some.inj hs ▸ h
  · obtain rfl := Option.some.inj hs
    cases hl : s.links.availabilitySub2MainSub.get req.subscriptionId with
    | some mainSubID =>
      simp only [lookUp_linked hl]
      refine { h with calls := ?_ }
      rintro call (hc | hc)
      · rcases List.mem_append.mp hc with hc | hc
        · obtain rfl : call = (mainSubID, req) := by simpa using hc
          exact hl
        · exact h.calls call (Or.inl hc)
      · exact h.calls call (Or.inr hc)
    | none =>
      simp only [lookUp_unlinked hl]
      refine { h with cached := ?_ }
      intro k r hk
      simp only [SubLinks.cache, GoMap.get_set] at hk
      split_ifs at hk with he
      · rw [← Option.some.inj hk, he]
      · exact h.cached k r hk

theorem linked_handle {s t : System} {call : Call} (h : Linked s)
    (hs : handle s call = some t) : Linked t := by
  obtain ⟨⟨c, handling⟩, htake, rfl⟩ := Option.map_eq_some_iff.mp hs
  obtain rfl : c = call := by simpa using Pool.take_sat htake
  refine { h with calls := ?_ }
  rintro c' (hc | hc)
  · exact h.calls c' (Or.inl (Pool.mem_of_mem_rest htake hc))
  · rcases List.mem_cons.mp hc with rfl | hc
    · exact h.calls c' (Or.inl (Pool.mem_of_take htake))
    · exact h.calls c' (Or.inr hc)

theorem linked_step {s t : System} {label : Label} (h : Linked s)
    (hs : step s label = some t) : Linked t := by
  cases label with
  | request sid =>
    obtain rfl := Option.some.inj hs
    exact { h with }
  | refuse sid =>
    obtain ⟨call, -, rfl⟩ := Option.map_eq_some_iff.mp hs
    exact { h with }
  | answer sid subscriptionId => exact linked_answer h hs
  | record subscriptionId => exact linked_record h hs
  | forward subscriptionId => exact linked_forward h hs
  | clear subscriptionId => exact linked_clear h hs
  | arrive req => exact linked_arrive h hs
  | handle call => exact linked_handle h hs

theorem linked_initial : Linked .initial := by
  constructor <;> simp [System.initial, SubLinks.empty]

def waiting (links : SubLinks) (req : NotifyContextAvailabilityRequest) : Nat :=
  if links.availabilitySub2MainSub.get req.subscriptionId = none ∧
    links.tmpNGSI9NotifyCache.get req.subscriptionId = some req then 1 else 0

-- every message received waits in the cache, is passed on, has been handled or is overwritten
def Tally (s : System) : Prop :=
  ∀ req, s.received.count req = waiting s.links req +
    (s.forwarding.map (fun call => call.2.2)).count req + (s.handling.map Prod.snd).count req +
    (s.handled.map Prod.snd).count req + s.overwritten.count req

theorem tally_record {s t : System} {subscriptionId : String} (h : Linked s) (ht : Tally s)
    (hs : record s subscriptionId = some t) : Tally t := by
  obtain ⟨⟨⟨sid, k⟩, answered⟩, htake, rfl⟩ := Option.map_eq_some_iff.mp hs
  obtain rfl : k = subscriptionId := by simpa using Pool.take_sat htake
  obtain ⟨-, hnone⟩ := h.answered sid k (Pool.mem_of_take htake)
  have hcache : (s.links.record sid k).2 = s.links.tmpNGSI9NotifyCache.get k := rfl
  intro req
  have hreq := ht req
  have hafter : waiting (s.links.record sid k).1 req =
      if req.subscriptionId = k then 0 else waiting s.links req := by
    unfold waiting
    rw [record_links, record_cache]
    by_cases hk : req.subscriptionId = k <;> simp [hk]
  cases hget : s.links.tmpNGSI9NotifyCache.get k with
  | none =>
    have hbefore : req.subscriptionId = k → waiting s.links req = 0 := by
      intro hk
      simp [waiting, hk, hget]
    simp only [hcache, hget, hafter]
    split_ifs with hk
    · rw [hreq, hbefore hk]
    · exact hreq
  | some notifyMessage =>
    have hof := h.cached k notifyMessage hget
    have hbefore : req.subscriptionId = k → waiting s.links req =
        if notifyMessage = req then 1 else 0 := by
      intro hk
      simp [waiting, hk, hget, hnone]
    simp only [hcache, hget, hafter, List.map_cons, List.count_cons, beq_iff_eq]
    by_cases hk : req.subscriptionId = k
    · rw [if_pos hk, hreq, hbefore hk]
      omega
    · rw [if_neg hk, if_neg (fun he : notifyMessage = req => hk (he ▸ hof)), hreq]
      omega

theorem tally_forward {s t : System} {subscriptionId : String} (ht : Tally s)
    (hs : forward s subscriptionId = some t) : Tally t := by
  obtain ⟨⟨⟨k, call⟩, forwarding⟩, htake, rfl⟩ := Option.map_eq_some_iff.mp hs
  intro req
  have hreq := ht req
  have hcount := Pool.count_of_take (fun c : String × Call => c.2.2) htake req
  simp only [List.map_cons, List.count_cons, beq_iff_eq] at hcount ⊢
  omega

theorem tally_clear {s t : System} {subscriptionId : String} (h : Linked s) (ht : Tally s)
    (hs : clear s subscriptionId = some t) : Tally t := by
  obtain ⟨⟨k, clearing⟩, htake, rfl⟩ := Option.map_eq_some_iff.mp hs
  obtain rfl : k = subscriptionId := by simpa using Pool.take_sat htake
  have hlink := h.clearing k (Pool.mem_of_take htake)
  intro req
  have hsame : waiting (s.links.clear k) req = waiting s.links req := by
    unfold waiting
    rw [clear_links, clear_cache]
    by_cases hk : req.subscriptionId = k
    · simp [hk, hlink]
    · simp [hk]
  simpa only [hsame] using ht req

theorem tally_arrive {s t : System} {req : NotifyContextAvailabilityRequest} (h : Linked s)
    (ht : Tally s)
    (hs : arrive s req = some t) : Tally t := by
  unfold arrive at hs
  split_ifs at hs
  · exact Option.some.inj hs ▸ ht
  · obtain rfl := Option.some.inj hs
    intro r
    have hr := ht r
    cases hl : s.links.availabilitySub2MainSub.get req.subscriptionId with
    | some mainSubID =>
      simp only [lookUp_linked hl, lost, hl, Option.map_some, Option.toList_some,
        Option.toList_none, List.cons_append, List.nil_append, List.map_cons, List.count_cons,
        beq_iff_eq]
      omega
    | none =>
      have hafter : waiting (s.links.cache req) r =
          if r.subscriptionId = req.subscriptionId then (if req = r then 1 else 0)
          else waiting s.links r := by
        unfold waiting
        simp only [SubLinks.cache, GoMap.get_set]
        by_cases hk : r.subscriptionId = req.subscriptionId <;> simp [hk, hl]
      have hlost : (lost s.links req).toList.count r =
          if r.subscriptionId = req.subscriptionId then waiting s.links r else 0 := by
        simp only [lost, hl, waiting]
        cases hget : s.links.tmpNGSI9NotifyCache.get req.subscriptionId with
        | none =>
          by_cases hk : r.subscriptionId = req.subscriptionId <;> simp [hk, hget]
        | some c =>
          have hof := h.cached _ c hget
          by_cases hk : r.subscriptionId = req.subscriptionId
          · simp [hk, hl, hget, List.count_singleton]
          · have hne : c ≠ r := fun he => hk (he ▸ hof)
            simp [hk, hne]
      simp only [lookUp_unlinked hl, Option.map_none, Option.toList_none, List.nil_append,
        List.count_append, List.count_cons, beq_iff_eq, hafter, hlost]
      by_cases hk : r.subscriptionId = req.subscriptionId
      · simp only [hk, if_true]
        omega
      · have hne : req ≠ r := fun he => hk (he ▸ rfl)
        simp only [hk, hne, if_false]
        omega

theorem tally_handle {s t : System} {call : Call} (ht : Tally s)
    (hs : handle s call = some t) : Tally t := by
  obtain ⟨⟨c, handling⟩, htake, rfl⟩ := Option.map_eq_some_iff.mp hs
  obtain rfl : c = call := by simpa using Pool.take_sat htake
  intro req
  have hreq := ht req
  have hcount := Pool.count_of_take (Prod.snd : Call → _) htake req
  simp only [List.map_cons, List.count_cons, beq_iff_eq] at hcount ⊢
  omega

theorem tally_step {s t : System} {label : Label} (h : Linked s) (ht : Tally s)
    (hs : step s label = some t) : Tally t := by
  cases label with
  | request sid =>
    obtain rfl := Option.some.inj hs
    exact ht
  | refuse sid =>
    obtain ⟨call, -, rfl⟩ := Option.map_eq_some_iff.mp hs
    exact ht
  | answer sid subscriptionId =>
    simp only [step, answer] at hs
    split_ifs at hs
    obtain ⟨call, -, rfl⟩ := Option.map_eq_some_iff.mp hs
    exact ht
  | record subscriptionId => exact tally_record h ht hs
  | forward subscriptionId => exact tally_forward ht hs
  | clear subscriptionId => exact tally_clear h ht hs
  | arrive req => exact tally_arrive h ht hs
  | handle call => exact tally_handle ht hs

-- the overwritten messages of a subscription appear at the hurried steps
def Kept (subscriptionId : String) (s : System) : Prop :=
  ∀ req ∈ s.overwritten, req.subscriptionId ≠ subscriptionId

theorem kept_step {s t : System} {label : Label} {subscriptionId : String} (h : Linked s)
    (hs : step s label = some t) :
    Kept subscriptionId t ↔ Kept subscriptionId s ∧ Unhurried subscriptionId s label := by
  have hsame : ∀ u : System, u.overwritten = s.overwritten →
      (Kept subscriptionId u ↔ Kept subscriptionId s ∧ True) := by
    intro u hu
    simp [Kept, hu]
  cases label with
  | request sid =>
    obtain rfl := Option.some.inj hs
    exact hsame _ rfl
  | refuse sid =>
    obtain ⟨call, -, rfl⟩ := Option.map_eq_some_iff.mp hs
    exact hsame _ rfl
  | answer sid k =>
    simp only [step, answer] at hs
    split_ifs at hs
    obtain ⟨call, -, rfl⟩ := Option.map_eq_some_iff.mp hs
    exact hsame _ rfl
  | record k =>
    obtain ⟨call, -, rfl⟩ := Option.map_eq_some_iff.mp hs
    refine hsame _ ?_
    dsimp only
    split <;> rfl
  | forward k | clear k | handle k =>
    obtain ⟨call, -, rfl⟩ := Option.map_eq_some_iff.mp hs
    exact hsame _ rfl
  | arrive req =>
    simp only [step, arrive] at hs
    split_ifs at hs with hprosumer
    · obtain rfl := Option.some.inj hs
      simp [Unhurried, hprosumer]
    · obtain rfl := Option.some.inj hs
      simp only [Kept, Unhurried, List.mem_append, Option.mem_toList, lost]
      cases hl : s.links.availabilitySub2MainSub.get req.subscriptionId with
      | some mainSubID =>
        have hlink : req.subscriptionId = subscriptionId →
            s.links.availabilitySub2MainSub.get subscriptionId ≠ none := by
          rintro rfl
          simp [hl]
        simp only [reduceCtorEq, false_or]
        exact ⟨fun hk => ⟨hk, fun he _ hn => absurd hn (hlink he)⟩, And.left⟩
      | none =>
        simp only [or_imp, forall_and, and_comm (a := ∀ r, r ∈ s.overwritten → _)]
        refine and_congr_left (fun _ => ?_)
        constructor
        · rintro hk rfl - -
          by_contra hne
          obtain ⟨c, hc⟩ := Option.ne_none_iff_exists'.mp hne
          exact hk c hc (h.cached _ c hc)
        · rintro hu c hc rfl
          have hof := h.cached _ c hc
          rw [← hof] at hc hl
          simp [hu hof.symm (by simpa using hprosumer) hl] at hc

theorem tally_initial : Tally .initial := by
  intro req
  simp [System.initial, waiting, SubLinks.empty]

section Runs

variable {labels : List Label} {s : System} {subscriptionId sid : String}
  (hrun : exec step .initial labels = some s)
include hrun

theorem accounted_run : Linked s ∧ Tally s :=
  exec_invariant (P := fun t => Linked t ∧ Tally t) hrun ⟨linked_initial, tally_initial⟩
    (fun _ _ _ h hs => ⟨linked_step h.1 hs, tally_step h.1 h.2 hs⟩)

theorem kept_iff_meets :
    Kept subscriptionId s ↔ Meets step (Unhurried subscriptionId) .initial labels := by
  have key : (Kept subscriptionId s ↔ Meets step (Unhurried subscriptionId) .initial labels) ∧
      Linked s := by
    refine exec_induction (motive := fun ls s =>
      (Kept subscriptionId s ↔ Meets step (Unhurried subscriptionId) .initial ls) ∧ Linked s)
      hrun ⟨?_, linked_initial⟩ ?_
    · simp [Kept, System.initial, Meets]
    · intro ls label r t _ hr ⟨ih, hlinked⟩ hs
      exact ⟨by rw [kept_step hlinked hs, ih, meets_concat hr], linked_step hlinked hs⟩
  exact key.1

-- a settled subscription has its messages handled or overwritten
theorem received_settled (hissued : s.issued.get subscriptionId = some sid)
    (hsettled : Settled s subscriptionId) {req : NotifyContextAvailabilityRequest}
    (hreq : req.subscriptionId = subscriptionId) :
    s.received.count req = (s.handled.map Prod.snd).count req + s.overwritten.count req := by
  obtain ⟨hlinked, htally⟩ := accounted_run hrun
  have hlink : s.links.availabilitySub2MainSub.get subscriptionId ≠ none :=
    fun hn => hsettled.answered sid (hlinked.unlinked _ _ hissued hn)
  have hwaiting : waiting s.links req = 0 := by simp [waiting, hreq, hlink]
  have hforwarding : (s.forwarding.map (fun call => call.2.2)).count req = 0 := by
    refine List.count_eq_zero_of_not_mem (fun hmem => ?_)
    obtain ⟨⟨k, call⟩, hc, rfl⟩ := List.mem_map.mp hmem
    obtain rfl := (hlinked.forwarding k call hc).1.symm.trans hreq
    exact hsettled.forwarding call hc
  have hhandling : (s.handling.map Prod.snd).count req = 0 := by
    refine List.count_eq_zero_of_not_mem (fun hmem => ?_)
    obtain ⟨call, hc, rfl⟩ := List.mem_map.mp hmem
    exact hsettled.handling call hc hreq
  have := htally req
  omega

theorem main_of_handled (hissued : s.issued.get subscriptionId = some sid) {call : Call}
    (hc : call ∈ s.handled) (hcall : call.2.subscriptionId = subscriptionId) : call.1 = sid := by
  obtain ⟨hlinked, -⟩ := accounted_run hrun
  have := hlinked.linked _ _ (hlinked.calls call (Or.inr hc))
  rw [hcall, hissued] at this
  exact (Option.some.inj this).symm

end Runs

theorem count_map_snd {calls : List Call} {sid : String} {req : NotifyContextAvailabilityRequest}
    (h : ∀ call ∈ calls, call.2 = req → call.1 = sid) :
    (calls.map Prod.snd).count req = calls.count (sid, req) := by
  induction calls with
  | nil => rfl
  | cons call calls ih =>
    have hhead : call.2 = req ↔ call = (sid, req) :=
      ⟨fun he => Prod.ext (h call (by simp) he) he, fun he => by rw [he]⟩
    simp [List.count_cons, ih (fun c hc => h c (List.mem_cons_of_mem _ hc)), hhead]

theorem handled_once_iff {labels : List Label} {s : System} {subscriptionId sid : String}
    (hrun : exec step .initial labels = some s)
    (hissued : s.issued.get subscriptionId = some sid) (hsettled : Settled s subscriptionId) :
    HandledOnce s subscriptionId sid ↔
      Meets step (Unhurried subscriptionId) .initial labels := by
  have hmain : ∀ req, req.subscriptionId = subscriptionId →
      ∀ call ∈ s.handled, call.2 = req → call.1 = sid := by
    rintro req hreq call hc rfl
    exact main_of_handled hrun hissued hc hreq
  have hcount : ∀ req, req.subscriptionId = subscriptionId →
      s.received.count req = s.handled.count (sid, req) + s.overwritten.count req := by
    intro req hreq
    rw [← count_map_snd (hmain req hreq), received_settled hrun hissued hsettled hreq]
  rw [← kept_iff_meets hrun]
  constructor
  · intro honce req hmem hreq
    have hpos := List.count_pos_iff.mpr hmem
    have := hcount req hreq
    rw [(honce req hreq).1] at this
    omega
  · intro hkept req hreq
    have hzero := List.count_eq_zero_of_not_mem (fun hmem => hkept req hmem hreq)
    exact ⟨by rw [hcount req hreq, hzero, Nat.add_zero], hmain req hreq⟩

def AlwaysHandledOnce : Prop :=
  ∀ labels s subscriptionId sid, exec step .initial labels = some s →
    s.issued.get subscriptionId = some sid → Settled s subscriptionId →
      HandledOnce s subscriptionId sid

def exampleNotify (code : Int) : NotifyContextAvailabilityRequest :=
  ⟨"availability", [⟨⟨[⟨"Car", false, "car1"⟩], [], [], "http://broker"⟩, ⟨200, "OK"⟩⟩],
    ⟨code, "OK"⟩⟩

-- an update overtakes the recording of the link after the creation has done so
def overtaken : List Label :=
  [.request "main", .answer "main" "availability", .arrive (exampleNotify 201),
    .arrive (exampleNotify 301), .record "availability", .forward "availability",
    .clear "availability"]

theorem creation_is_overwritten : ¬ AlwaysHandledOnce := by
  intro h
  have hrun : ∃ s, exec step .initial overtaken = some s ∧
      s.issued.get "availability" = some "main" ∧ s.answered = [] ∧ s.forwarding = [] ∧
      s.handling = [] ∧ s.received = [exampleNotify 301, exampleNotify 201] ∧
      s.handled = [("main", exampleNotify 301)] := ⟨_, rfl, rfl, rfl, rfl, rfl, rfl, rfl⟩
  obtain ⟨s, hs, hissued, hans, hfor, hhan, hrec, hhandled⟩ := hrun
  have honce := (h _ s _ _ hs hissued ⟨by simp [hans], by simp [hfor], by simp [hhan]⟩
    (exampleNotify 201) rfl).1
  rw [hrec, hhandled] at honce
  exact absurd honce (by decide)

def unhurried : List Label :=
  [.request "main", .answer "main" "availability", .arrive (exampleNotify 201),
    .record "availability", .arrive (exampleNotify 301), .forward "availability",
    .handle ("main", exampleNotify 301), .clear "availability"]

theorem early_creation_handled_once :
    ∃ s, exec step .initial unhurried = some s ∧
      s.received = [exampleNotify 301, exampleNotify 201] ∧
      Meets step (Unhurried "availability") .initial unhurried := by
  have hrun : ∃ s, exec step .initial unhurried = some s ∧
      s.issued.get "availability" = some "main" ∧ s.answered = [] ∧ s.forwarding = [] ∧
      s.handling = [] ∧ s.received = [exampleNotify 301, exampleNotify 201] ∧
      s.handled = [("main", exampleNotify 301), ("main", exampleNotify 201)] :=
    ⟨_, rfl, rfl, rfl, rfl, rfl, rfl, rfl⟩
  obtain ⟨s, hs, hissued, hans, hfor, hhan, hrec, hhandled⟩ := hrun
  refine ⟨s, hs, hrec, (handled_once_iff hs hissued
    ⟨by simp [hans], by simp [hfor], by simp [hhan]⟩).mp (fun req _ => ⟨?_, ?_⟩)⟩
  · rw [hrec, hhandled]
    simp [List.count_cons]
  · intro call hc _
    rw [hhandled] at hc
    simp only [List.mem_cons, List.not_mem_nil, or_false] at hc
    rcases hc with rfl | rfl <;> rfl

end Availability

end FogFlow.Broker
