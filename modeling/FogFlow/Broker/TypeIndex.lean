import FogFlow.Broker.Forwarding
import FogFlow.Broker.Processing

namespace FogFlow.Broker.TypeIndex

open Ngsi Execution Processing

def adds (request : SubscribeContextRequest) (entity : EntityId) (k : String) : Bool :=
  if request.isSimplyByType then
    entity.getTypeWildCard == k && request.entities.any (fun e => e.type == entity.type)
  else entity.id == k

def record (request : SubscribeContextRequest) (k : String) (isListed : Bool) (n : Naming) : Bool :=
  if n.action = .delete then isListed && n.entity.id != k else isListed || adds request n.entity k

-- whether the last naming that concerns the key puts the subscription under it
def listed (request : SubscribeContextRequest) (k : String) (log : List Naming) : Bool :=
  log.foldl (record request k) false

structure Indexed (s : System) (main : String) (request : SubscribeContextRequest) : Prop where
  byType : request.isSimplyByType = true → ∀ k,
    (s.broker.entityId2Subcriptions.slice k).count main =
      (listed request k (logOf s.log main)).toNat
  byId : request.isSimplyByType = false → ∀ k, listed request k (logOf s.log main) = true →
    main ∈ s.broker.entityId2Subcriptions.slice k

section Entity

variable {index : Index} {main : String} {action : Action} {request : SubscribeContextRequest}
  {eid : EntityId} {eids : List EntityId} {b : String → Bool} {k : String}

theorem count_addKey (h : ∀ k, (index.slice k).count main = (b k).toNat) (w k : String) :
    ((addKey index w main).slice k).count main = (b k || w == k).toNat := by
  rw [slice_addKey]
  by_cases hk : k = w
  · subst hk
    by_cases hmem : main ∈ index.slice k
    · have hpos := List.count_pos_iff.mpr hmem
      rw [if_neg (fun hadd => hadd.2 hmem), h]
      rw [h] at hpos
      cases hb : b k with
      | true => rfl
      | false => simp [hb] at hpos
    · have hzero := List.count_eq_zero.mpr hmem
      rw [if_pos ⟨rfl, hmem⟩, List.count_append, hzero]
      simp
  · have hne : (w == k) = false := by simpa using fun heq => hk heq.symm
    rw [if_neg (fun hadd => hk hadd.1), h, hne, Bool.or_false]

theorem count_adds (h : ∀ k, (index.slice k).count main = (b k).toNat) (ws : List String)
    (k : String) :
    ((applyOps index (ws.map (.add · main))).slice k).count main = (b k || ws.contains k).toNat := by
  induction ws generalizing index b with
  | nil => simpa [applyOps] using h k
  | cons w ws ih =>
    rw [List.map_cons, applyOps_cons]
    refine (ih (b := fun k => b k || w == k) (fun k => count_addKey h w k)).trans ?_
    rw [List.contains_cons, Bool.or_assoc, Bool.beq_comm]

theorem count_remove (h : ∀ k, (index.slice k).count main = (b k).toNat) (id k : String) :
    ((deleteFromIndex index id main).slice k).count main = (b k && id != k).toNat := by
  rw [slice_deleteFromIndex]
  split_ifs with hk
  · subst hk
    rw [List.count_erase_self, h]
    cases b k <;> simp
  · have hne : (id != k) = true := by simpa using fun heq => hk heq.symm
    rw [h, hne, Bool.and_true]

theorem contains_getTypeWildCards : (request.getTypeWildCards (some eid)).contains k =
    (eid.getTypeWildCard == k && request.entities.any (fun e => e.type == eid.type)) := by
  rw [Bool.eq_iff_iff, List.contains_iff_mem, Bool.and_eq_true, beq_iff_eq, List.any_eq_true]
  simp only [SubscribeContextRequest.getTypeWildCards, List.mem_map, List.mem_filter, beq_iff_eq]
  constructor
  · rintro ⟨e, ⟨he, htype⟩, rfl⟩
    exact ⟨congrArg genWildCard htype, e, he, htype.symm⟩
  · rintro ⟨rfl, e, he, htype⟩
    exact ⟨e, ⟨he, htype.symm⟩, congrArg genWildCard htype⟩

theorem count_entityOps (hsimple : request.isSimplyByType = true)
    (h : ∀ k, (index.slice k).count main = (b k).toNat) (provider k : String) :
    ((applyOps index (entityOps action (some request) main eid)).slice k).count main =
      (record request k (b k) ⟨main, action, provider, eid⟩).toNat := by
  cases action with
  | delete => exact count_remove h eid.id k
  | create | update =>
    have hops := count_adds h (request.getTypeWildCards (some eid)) k
    rw [contains_getTypeWildCards] at hops
    simpa only [entityOps, record, adds, if_pos hsimple, reduceCtorEq, if_false] using hops

theorem mem_entityOps (hsimple : request.isSimplyByType = false)
    (h : ∀ k, b k = true → main ∈ index.slice k) (provider k : String)
    (hk : record request k (b k) ⟨main, action, provider, eid⟩ = true) :
    main ∈ (applyOps index (entityOps action (some request) main eid)).slice k := by
  cases action with
  | delete =>
    simp only [record, if_pos, Bool.and_eq_true, bne_iff_ne] at hk
    have hne : ∀ op ∈ entityOps .delete (some request) main eid, op.key ≠ k := by
      intro op hop
      rw [List.mem_singleton.mp hop]
      exact hk.2
    rw [slice_applyOps_of_key hne]
    exact h k hk.1
  | create | update =>
    simp only [record, reduceCtorEq, if_false, adds, hsimple, Bool.false_eq_true, Bool.or_eq_true,
      beq_iff_eq] at hk
    rw [mem_applyOps_of_inserts (fun op => inserts_of_mem_entityOps (by decide)),
      exists_entityOps_iff (by decide), hsimple]
    exact hk.imp (h k) (fun heq => ⟨rfl, heq.symm⟩)

theorem count_entitiesOps (hsimple : request.isSimplyByType = true)
    (h : ∀ k, (index.slice k).count main = (b k).toNat) (registration : ContextRegistration)
    (k : String) : ((applyOps index (entitiesOps action (some request) main
      registration.entityIdList)).slice k).count main =
      ((namings main action registration).foldl (record request k) (b k)).toNat := by
  unfold entitiesOps namings
  generalize registration.entityIdList = eids
  induction eids generalizing index b with
  | nil => exact h k
  | cons eid eids ih =>
    rw [List.flatMap_cons, applyOps_append, List.map_cons, List.foldl_cons]
    exact ih (b := fun k => record request k (b k)
      ⟨main, action, registration.providingApplication, eid⟩)
      (fun k => count_entityOps hsimple h registration.providingApplication k)

theorem mem_entitiesOps (hsimple : request.isSimplyByType = false)
    (h : ∀ k, b k = true → main ∈ index.slice k) (registration : ContextRegistration)
    (k : String) (hk : (namings main action registration).foldl (record request k) (b k) = true) :
    main ∈ (applyOps index (entitiesOps action (some request) main
      registration.entityIdList)).slice k := by
  unfold namings at hk
  unfold entitiesOps
  generalize registration.entityIdList = eids at hk ⊢
  induction eids generalizing index b with
  | nil => exact h k hk
  | cons eid eids ih =>
    rw [List.flatMap_cons, applyOps_append]
    rw [List.map_cons, List.foldl_cons] at hk
    exact ih (b := fun k => record request k (b k)
      ⟨main, action, registration.providingApplication, eid⟩)
      (fun k => mem_entityOps hsimple h registration.providingApplication k) hk

end Entity

theorem local_indexed (cfg : Config) : Local cfg (fun _ => True) Indexed where
  unknown := by
    intro s m q h hm
    refine ⟨fun _ k => ?_, fun _ k hk => ?_⟩
    · rw [unknown_index h hm, unknown_log h hm]
      rfl
    · rw [unknown_log h hm] at hk
      cases hk
  same := by
    intro s t m q hsame h
    refine ⟨fun hsimple k => ?_, fun hsimple k hk => ?_⟩
    · rw [hsame.index, hsame.log]
      exact h.byType hsimple k
    · rw [← List.count_pos_iff, hsame.index, List.count_pos_iff]
      exact h.byId hsimple k (hsame.log ▸ hk)
  turn := by
    intro s main action request r _ _ _ h
    refine ⟨fun hsimple k => ?_, fun hsimple k hk => ?_⟩
    · rw [index_turn, logOf_turn, listed, List.foldl_append]
      exact count_entitiesOps hsimple (h.byType hsimple) r.1.contextRegistration k
    · rw [logOf_turn, listed, List.foldl_append] at hk
      rw [index_turn]
      exact mem_entitiesOps hsimple (h.byId hsimple) r.1.contextRegistration k hk

theorem indexed_run {cfg : Config} {labels : List Label} {s : System} {main : String}
    {request : SubscribeContextRequest} (hrun : exec (step cfg) .initial labels = some s)
    (hget : s.request main = some request) (hexternal : request.subscriber.isInternal = false) :
    Indexed s main request :=
  ((local_indexed cfg).keeps_run (fun _ _ _ _ => trivial) hrun).2 main request hget hexternal

end FogFlow.Broker.TypeIndex
