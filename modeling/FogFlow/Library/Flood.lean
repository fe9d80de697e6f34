import Mathlib.Data.List.Perm.Subperm
import Mathlib.Data.List.Nodup
import Mathlib.Data.List.Pairwise

namespace FogFlow.Flood

variable {α : Type*} {start : List α} {out : α → List α} {origin a b c : α}
  {inFlight received rest : List (α × α)} {p : α × α}

-- what a node sends on when a message has reached it
def relay (out : α → List α) (a : α) : List (α × α) := (out a).map (fun b => (a, b))

-- a flood up to the order of its lists: the messages under way and the ones that have arrived
inductive Reached (origin : α) (start : List α) (out : α → List α) :
    List (α × α) → List (α × α) → Prop
  | launch : Reached origin start out (start.map (fun b => (origin, b))) []
  | deliver {inFlight received rest : List (α × α)} {p : α × α}
      (h : Reached origin start out inFlight received) (hp : inFlight.Perm (p :: rest)) :
      Reached origin start out (rest ++ relay out p.2) (p :: received)
  | perm {inFlight received inFlight' received' : List (α × α)}
      (h : Reached origin start out inFlight received) (hi : inFlight.Perm inFlight')
      (hr : received.Perm received') : Reached origin start out inFlight' received'

inductive Touched (start : List α) (out : α → List α) : α → Prop
  | first {a : α} (h : a ∈ start) : Touched start out a
  | next {a b : α} (h : Touched start out a) (hb : b ∈ out a) : Touched start out b

-- each node is led to in one way, and the first nodes do not lead back to the origin
structure SingleRoute (origin : α) (start : List α) (out : α → List α) : Prop where
  start_nodup : start.Nodup
  out_nodup : ∀ a, Touched start out a → (out a).Nodup
  start_apart : ∀ a, Touched start out a → ∀ b ∈ start, b ∉ out a
  out_apart : ∀ a b, Touched start out a → Touched start out b → ∀ c ∈ out a, c ∈ out b → a = b
  origin_apart : ∀ a ∈ start, origin ∉ out a

-- every message is a first one or a node that has been reached has sent it
structure Traced (origin : α) (start : List α) (out : α → List α)
    (inFlight received : List (α × α)) : Prop where
  sent : ∀ p ∈ inFlight ++ received, p.1 = origin ∧ p.2 ∈ start ∨
    Touched start out p.1 ∧ p.2 ∈ out p.1 ∧ p.1 ∈ received.map Prod.snd
  once : ((inFlight ++ received).map Prod.snd).Nodup

@[simp] theorem mem_relay : p ∈ relay out a ↔ p.1 = a ∧ p.2 ∈ out a := by
  obtain ⟨x, y⟩ := p
  simp only [relay, List.mem_map, Prod.mk.injEq]
  constructor
  · rintro ⟨b, hb, rfl, rfl⟩
    exact ⟨rfl, hb⟩
  · rintro ⟨rfl, hb⟩
    exact ⟨y, hb, rfl, rfl⟩

theorem map_snd_relay (a : α) : (relay out a).map Prod.snd = out a := by
  simp [relay, Function.comp_def]

theorem Traced.touched (h : Traced origin start out inFlight received)
    (hp : p ∈ inFlight ++ received) : Touched start out p.2 := by
  rcases h.sent p hp with ⟨-, hs⟩ | ⟨ht, ho, -⟩
  · exact .first hs
  · exact .next ht ho

theorem traced_perm {inFlight' received' : List (α × α)}
    (h : Traced origin start out inFlight received) (hi : inFlight.Perm inFlight')
    (hr : received.Perm received') : Traced origin start out inFlight' received' where
  sent q hq := by
    rcases h.sent q ((hi.append hr).mem_iff.mpr hq) with hs | ⟨ht, ho, hm⟩
    · exact Or.inl hs
    · exact Or.inr ⟨ht, ho, (hr.map _).mem_iff.mp hm⟩
  once := ((hi.append hr).map _).nodup_iff.mp h.once

theorem perm_deliver (hp : inFlight.Perm (p :: rest)) (sent : List (α × α)) :
    ((rest ++ sent) ++ p :: received).Perm ((inFlight ++ received) ++ sent) := by
  have h1 : ((rest ++ sent) ++ p :: received).Perm (p :: (rest ++ sent ++ received)) :=
    List.perm_middle
  have h2 : (rest ++ sent ++ received).Perm (rest ++ received ++ sent) := by
    simp only [List.append_assoc]
    exact List.perm_append_comm.append_left _
  have h3 : (p :: (rest ++ received ++ sent)).Perm (inFlight ++ received ++ sent) :=
    (hp.symm.append_right received).append_right sent
  exact (h1.trans (h2.cons p)).trans h3

theorem traced_deliver (hs : SingleRoute origin start out)
    (h : Traced origin start out inFlight received) (hp : inFlight.Perm (p :: rest)) :
    Traced origin start out (rest ++ relay out p.2) (p :: received) := by
  have hperm : ((rest ++ relay out p.2) ++ p :: received).Perm
      ((inFlight ++ received) ++ relay out p.2) := perm_deliver hp _
  have hmem : p ∈ inFlight := hp.mem_iff.mpr List.mem_cons_self
  have htouched := h.touched (List.mem_append_left received hmem)
  constructor
  · intro q hq
    rcases List.mem_append.mp (hperm.mem_iff.mp hq) with hold | hnew
    · rcases h.sent q hold with hstart | ⟨ht, ho, hm⟩
      · exact Or.inl hstart
      · exact Or.inr ⟨ht, ho, List.mem_cons_of_mem _ hm⟩
    · obtain ⟨hq1, hq2⟩ := mem_relay.mp hnew
      rw [← hq1] at hq2 htouched
      exact Or.inr ⟨htouched, hq2, by simp [hq1]⟩
  · rw [(hperm.map _).nodup_iff, List.map_append, List.nodup_append]
    refine ⟨h.once, by rw [map_snd_relay]; exact hs.out_nodup _ htouched, ?_⟩
    rintro x hx y hy rfl
    rw [map_snd_relay] at hy
    obtain ⟨q, hq, rfl⟩ := List.mem_map.mp hx
    rcases h.sent q hq with ⟨-, hstart⟩ | ⟨ht, ho, hm⟩
    · exact hs.start_apart _ htouched _ hstart hy
    · -- the sender would be the node that is only now reached
      have hsame : q.1 = p.2 := hs.out_apart _ _ ht htouched _ ho hy
      have hdisjoint := (List.nodup_append.mp (by simpa using h.once)).2.2
      exact hdisjoint p.2 (List.mem_map_of_mem hmem) q.1 hm hsame.symm

theorem traced_of_reached (hs : SingleRoute origin start out)
    (h : Reached origin start out inFlight received) :
    Traced origin start out inFlight received := by
  induction h with
  | launch =>
    refine ⟨fun q hq => Or.inl ?_, by simpa [Function.comp_def] using hs.start_nodup⟩
    simp only [List.append_nil, List.mem_map] at hq
    obtain ⟨b, hb, rfl⟩ := hq
    exact ⟨rfl, hb⟩
  | deliver _ hp ih => exact traced_deliver hs ih hp
  | perm _ hi hr ih => exact traced_perm ih hi hr

-- two nodes that lead to each other are not touched
theorem not_mutual (hs : SingleRoute origin start out) (ha : Touched start out a)
    (hb : b ∈ out a) : a ∉ out b := by
  induction ha generalizing b with
  | first h =>
    exact hs.start_apart b (.next (.first h) hb) _ h
  | @next c a hc hac ih =>
    intro hab
    obtain rfl : c = b := hs.out_apart c b hc (.next (.next hc hac) hb) a hac hab
    exact ih hac hb

theorem not_back (hs : SingleRoute origin start out)
    (h : Reached origin start out inFlight received) (hp : p ∈ inFlight ++ received) :
    p.1 ∉ out p.2 := by
  rcases (traced_of_reached hs h).sent p hp with ⟨ho, hstart⟩ | ⟨ht, ho, -⟩
  · rw [ho]
    exact hs.origin_apart _ hstart
  · exact not_mutual hs ht ho

theorem length_le_of_mem {nodes : List α} (hs : SingleRoute origin start out)
    (h : Reached origin start out inFlight received)
    (hn : ∀ p ∈ inFlight ++ received, p.2 ∈ nodes) :
    (inFlight ++ received).length ≤ nodes.length := by
  have hsub : ((inFlight ++ received).map Prod.snd) ⊆ nodes := by
    intro x hx
    obtain ⟨q, hq, rfl⟩ := List.mem_map.mp hx
    exact hn q hq
  have hle := ((traced_of_reached hs h).once.subperm hsub).length_le
  rwa [List.length_map] at hle

-- the messages so far are the first ones and what the nodes reached have sent on
theorem accounted_of_reached (h : Reached origin start out inFlight received) :
    (inFlight ++ received).Perm
      (start.map (fun b => (origin, b)) ++ received.flatMap (fun p => relay out p.2)) := by
  induction h with
  | launch => simp
  | @deliver inFlight received rest p _ hp ih =>
    refine (perm_deliver hp _).trans ((ih.append_right _).trans ?_)
    rw [List.flatMap_cons, List.append_assoc]
    exact List.perm_append_comm.append_left _
  | perm _ hi hr ih =>
    exact ((hi.append hr).symm.trans ih).trans ((hr.flatMap_right _).append_left _)

section Settled

variable (h : Reached origin start out [] received)

include h

theorem targets_of_settled : (received.map Prod.snd).Perm
    (start ++ received.flatMap (fun p => out p.2)) := by
  have hperm := (accounted_of_reached h).map Prod.snd
  simpa [List.map_flatMap, map_snd_relay, Function.comp_def] using hperm

theorem mem_received_of_touched (ha : Touched start out a) :
    ∃ p ∈ received, p.2 = a := by
  induction ha with
  | first hs =>
    exact List.mem_map.mp ((targets_of_settled h).mem_iff.mpr (List.mem_append_left _ hs))
  | next _ hb ih =>
    obtain ⟨p, hp, rfl⟩ := ih
    refine List.mem_map.mp ((targets_of_settled h).mem_iff.mpr (List.mem_append_right _ ?_))
    exact List.mem_flatMap.mpr ⟨p, hp, hb⟩

-- a flood that has come to its end without a repetition had one route to each node
theorem singleRoute_of_settled (hn : (received.map Prod.snd).Nodup)
    (hback : ∀ p ∈ received, p.1 ∉ out p.2) : SingleRoute origin start out := by
  have hall := (targets_of_settled h).nodup_iff.mp hn
  obtain ⟨hstart, hout, hapart⟩ := List.nodup_append.mp hall
  obtain ⟨hnodup, hpair⟩ := List.nodup_flatMap.mp hout
  refine ⟨hstart, ?_, ?_, ?_, ?_⟩
  · intro a ha
    obtain ⟨p, hp, rfl⟩ := mem_received_of_touched h ha
    exact hnodup p hp
  · intro a ha b hb hmem
    obtain ⟨p, hp, rfl⟩ := mem_received_of_touched h ha
    exact hapart b hb b (List.mem_flatMap.mpr ⟨p, hp, hmem⟩) rfl
  · intro a b ha hb c hca hcb
    obtain ⟨p, hp, rfl⟩ := mem_received_of_touched h ha
    obtain ⟨q, hq, rfl⟩ := mem_received_of_touched h hb
    by_contra hne
    have hpq : p ≠ q := fun heq => hne (heq ▸ rfl)
    have hsymm : Std.Symm (Function.onFun List.Disjoint (fun p : α × α => out p.2)) :=
      ⟨fun _ _ hd x hx hy => hd hy hx⟩
    exact hpair.forall hp hq hpq hca hcb
  · intro a ha
    have hmem : (origin, a) ∈ received := by
      have hperm := accounted_of_reached h
      rw [List.nil_append] at hperm
      exact hperm.mem_iff.mpr (List.mem_append_left _ (List.mem_map.mpr ⟨a, ha, rfl⟩))
    exact hback _ hmem

end Settled

end FogFlow.Flood
