import FogFlow.Broker.Notification

namespace FogFlow.Broker

open Ngsi Handler

abbrev Index := GoMap (List String)

variable {index : Index} {k id subID mainSubID x : String}

def appendKey (index : Index) (id subID : String) : Index :=
  index.set id (index.slice id ++ [subID])

def addKey (index : Index) (id subID : String) : Index :=
  if (index.slice id).contains subID then index else appendKey index id subID

-- what a message does to the index does not depend on the index
inductive IndexOp where
  | add (id subID : String)
  | append (id subID : String)
  | remove (id subID : String)
deriving DecidableEq, Repr

def IndexOp.key : IndexOp → String
  | .add id _ | .append id _ | .remove id _ => id

def IndexOp.member : IndexOp → String
  | .add _ subID | .append _ subID | .remove _ subID => subID

def IndexOp.inserts : IndexOp → Bool
  | .add _ _ | .append _ _ => true
  | .remove _ _ => false

def IndexOp.apply (index : Index) : IndexOp → Index
  | .add id subID => addKey index id subID
  | .append id subID => appendKey index id subID
  | .remove id subID => deleteFromIndex index id subID

def applyOps (index : Index) (ops : List IndexOp) : Index := ops.foldl IndexOp.apply index

-- behind a message for a prosumer there is no subscription
def entityOps (action : Action) (behind : Option SubscribeContextRequest) (mainSubID : String)
    (eid : EntityId) : List IndexOp :=
  match action, behind with
  | .delete, _ => [.remove eid.id mainSubID]
  | _, none => [.add (prosumerKey eid) mainSubID]
  | .create, some request =>
      if request.isSimplyByType then
        (request.getTypeWildCards (some eid)).map (.add · mainSubID)
      else [.append eid.id mainSubID]
  | .update, some request =>
      if request.isSimplyByType then
        (request.getTypeWildCards (some eid)).map (.add · mainSubID)
      else [.add eid.id mainSubID]

def entitiesOps (action : Action) (behind : Option SubscribeContextRequest) (mainSubID : String)
    (eids : List EntityId) : List IndexOp :=
  eids.flatMap (entityOps action behind mainSubID)

theorem applyOps_cons (index : Index) (op : IndexOp) (ops : List IndexOp) :
    applyOps index (op :: ops) = applyOps (op.apply index) ops := rfl

theorem applyOps_append (index : Index) (ops ops' : List IndexOp) :
    applyOps index (ops ++ ops') = applyOps (applyOps index ops) ops' := by
  simp [applyOps]

theorem slice_appendKey (index : Index) (id subID k : String) :
    (appendKey index id subID).slice k =
      if k = id then index.slice id ++ [subID] else index.slice k :=
  GoMap.slice_set _ _ _ _

theorem slice_addKey (index : Index) (id subID k : String) :
    (addKey index id subID).slice k =
      if k = id ∧ subID ∉ index.slice id then index.slice id ++ [subID] else index.slice k := by
  unfold addKey
  by_cases hmem : subID ∈ index.slice id
  · simp [hmem]
  · simp [hmem, slice_appendKey]

theorem mem_appendKey : x ∈ (appendKey index id subID).slice k ↔
    x ∈ index.slice k ∨ x = subID ∧ k = id := by
  rw [slice_appendKey]
  split_ifs with hk
  · simp [hk]
  · simp [hk]

theorem mem_addKey : x ∈ (addKey index id subID).slice k ↔
    x ∈ index.slice k ∨ x = subID ∧ k = id := by
  unfold addKey
  split_ifs with hmem
  · refine ⟨Or.inl, ?_⟩
    rintro (h | ⟨rfl, rfl⟩)
    · exact h
    · simpa using hmem
  · exact mem_appendKey

section Operations

variable {op : IndexOp} {ops : List IndexOp} {action : Action}
  {behind : Option SubscribeContextRequest} {eid : EntityId} {eids : List EntityId}

theorem slice_apply_of_key (h : op.key ≠ k) : (op.apply index).slice k = index.slice k := by
  have hk : k ≠ op.key := fun heq => h heq.symm
  cases op with
  | add id subID => exact (slice_addKey _ _ _ _).trans (if_neg (fun hadd => hk hadd.1))
  | append id subID => exact (slice_appendKey _ _ _ _).trans (if_neg hk)
  | remove id subID => exact (slice_deleteFromIndex _ _ _ _).trans (if_neg hk)

theorem count_concat_of_ne {l : List String} {subID : String} (h : subID ≠ x) :
    (l ++ [subID]).count x = l.count x := by
  simp [List.count_append, h]

theorem count_apply_of_member (h : op.member ≠ x) :
    ((op.apply index).slice k).count x = (index.slice k).count x := by
  cases op with
  | add id subID =>
    have hne : subID ≠ x := h
    rw [IndexOp.apply, slice_addKey]
    split_ifs with hk
    · rw [count_concat_of_ne hne, hk.1]
    · rfl
  | append id subID =>
    have hne : subID ≠ x := h
    rw [IndexOp.apply, slice_appendKey]
    split_ifs with hk
    · rw [count_concat_of_ne hne, hk]
    · rfl
  | remove id subID =>
    have hne : x ≠ subID := fun heq => h heq.symm
    rw [IndexOp.apply, slice_deleteFromIndex]
    split_ifs with hk
    · rw [hk, List.count_erase_of_ne hne]
    · rfl

theorem mem_apply_of_inserts (h : op.inserts = true) : x ∈ (op.apply index).slice k ↔
    x ∈ index.slice k ∨ x = op.member ∧ k = op.key := by
  cases op with
  | add id subID => exact mem_addKey
  | append id subID => exact mem_appendKey
  | remove id subID => cases h

-- what no single operation changes is the same after all of them
theorem applyOps_unchanged {β : Type} {f : Index → β}
    (h : ∀ op ∈ ops, ∀ index, f (op.apply index) = f index) :
    f (applyOps index ops) = f index := by
  induction ops generalizing index with
  | nil => rfl
  | cons op ops ih =>
    rw [applyOps_cons]
    exact (ih (fun o ho => h o (List.mem_cons_of_mem _ ho))).trans
      (h op List.mem_cons_self index)

theorem slice_applyOps_of_key (h : ∀ op ∈ ops, op.key ≠ k) :
    (applyOps index ops).slice k = index.slice k :=
  applyOps_unchanged (f := fun index => index.slice k)
    (fun op hop _ => slice_apply_of_key (h op hop))

theorem count_applyOps_of_member (h : ∀ op ∈ ops, op.member ≠ x) :
    ((applyOps index ops).slice k).count x = (index.slice k).count x :=
  applyOps_unchanged (f := fun index => (index.slice k).count x)
    (fun op hop _ => count_apply_of_member (h op hop))

theorem mem_applyOps_of_member (h : ∀ op ∈ ops, op.member ≠ x) :
    x ∈ (applyOps index ops).slice k ↔ x ∈ index.slice k := by
  rw [← List.count_pos_iff, count_applyOps_of_member h, List.count_pos_iff]

theorem mem_applyOps_of_inserts (h : ∀ op ∈ ops, op.inserts = true) :
    x ∈ (applyOps index ops).slice k ↔
      x ∈ index.slice k ∨ ∃ op ∈ ops, x = op.member ∧ k = op.key := by
  induction ops generalizing index with
  | nil => simp [applyOps]
  | cons op ops ih =>
    have hop := h op List.mem_cons_self
    have hops : ∀ o ∈ ops, o.inserts = true := fun o ho => h o (List.mem_cons_of_mem _ ho)
    rw [applyOps_cons]
    refine (ih hops).trans ?_
    rw [mem_apply_of_inserts hop, List.exists_mem_cons_iff, or_assoc]

theorem member_of_mem_entityOps (h : op ∈ entityOps action behind mainSubID eid) :
    op.member = mainSubID := by
  unfold entityOps at h
  split at h
  · rw [List.mem_singleton.mp h]
    rfl
  · rw [List.mem_singleton.mp h]
    rfl
  all_goals
    split_ifs at h
    · obtain ⟨w, -, rfl⟩ := List.mem_map.mp h
      rfl
    · rw [List.mem_singleton.mp h]
      rfl

theorem inserts_of_mem_entityOps (hact : action ≠ .delete)
    (h : op ∈ entityOps action behind mainSubID eid) : op.inserts = true := by
  unfold entityOps at h
  split at h
  · exact absurd rfl hact
  · rw [List.mem_singleton.mp h]
    rfl
  all_goals
    split_ifs at h
    · obtain ⟨w, -, rfl⟩ := List.mem_map.mp h
      rfl
    · rw [List.mem_singleton.mp h]
      rfl

-- the keys under which an entity is indexed for a subscription
theorem exists_entityOps_iff {request : SubscribeContextRequest} (hact : action ≠ .delete) :
    (∃ op ∈ entityOps action (some request) mainSubID eid, x = op.member ∧ k = op.key) ↔
      x = mainSubID ∧ if request.isSimplyByType then
        k = eid.getTypeWildCard ∧ ∃ entity ∈ request.entities, entity.type = eid.type
      else k = eid.id := by
  have hwild : (∃ op ∈ (request.getTypeWildCards (some eid)).map (IndexOp.add · mainSubID),
      x = op.member ∧ k = op.key) ↔ x = mainSubID ∧ k = eid.getTypeWildCard ∧
        ∃ entity ∈ request.entities, entity.type = eid.type := by
    constructor
    · rintro ⟨op, hop, hx, hk⟩
      obtain ⟨w, hw, rfl⟩ := List.mem_map.mp hop
      obtain ⟨entity, hentity, -⟩ := List.mem_map.mp hw
      obtain ⟨hmem, htype⟩ := List.mem_filter.mp hentity
      exact ⟨hx, hk.trans (getTypeWildCards_of_type hw), entity, hmem, (beq_iff_eq.mp htype).symm⟩
    · rintro ⟨rfl, rfl, entity, hmem, htype⟩
      refine ⟨.add (genWildCard entity.type) x, List.mem_map.mpr ⟨_, List.mem_map.mpr
        ⟨entity, List.mem_filter.mpr ⟨hmem, by simp [htype]⟩, rfl⟩, rfl⟩, rfl, ?_⟩
      rw [EntityId.getTypeWildCard, ← htype]
      rfl
  cases action with
  | delete => exact absurd rfl hact
  | create | update =>
    by_cases hsimple : request.isSimplyByType = true
    · simpa only [entityOps, if_pos hsimple] using hwild
    · simp [entityOps, hsimple, IndexOp.member, IndexOp.key]

theorem member_of_mem_entitiesOps (h : op ∈ entitiesOps action behind mainSubID eids) :
    op.member = mainSubID := by
  obtain ⟨eid, -, h⟩ := List.mem_flatMap.mp h
  exact member_of_mem_entityOps h

theorem inserts_of_mem_entitiesOps (hact : action ≠ .delete)
    (h : op ∈ entitiesOps action behind mainSubID eids) : op.inserts = true := by
  obtain ⟨eid, -, h⟩ := List.mem_flatMap.mp h
  exact inserts_of_mem_entityOps hact h

theorem mem_entitiesOps_delete (h : op ∈ entitiesOps .delete behind mainSubID eids) :
    ∃ eid ∈ eids, op = .remove eid.id mainSubID := by
  obtain ⟨eid, heid, h⟩ := List.mem_flatMap.mp h
  exact ⟨eid, heid, List.mem_singleton.mp h⟩

theorem mem_applyOps_entitiesOps {request : SubscribeContextRequest} (hact : action ≠ .delete) :
    mainSubID ∈ (applyOps index (entitiesOps action (some request) mainSubID eids)).slice k ↔
      mainSubID ∈ index.slice k ∨ ∃ eid ∈ eids, if request.isSimplyByType then
        k = eid.getTypeWildCard ∧ ∃ entity ∈ request.entities, entity.type = eid.type
      else k = eid.id := by
  rw [mem_applyOps_of_inserts (fun op h => inserts_of_mem_entitiesOps hact h)]
  have hkey : (∃ op ∈ entitiesOps action (some request) mainSubID eids,
      mainSubID = op.member ∧ k = op.key) ↔ ∃ eid ∈ eids, ∃ op ∈ entityOps action (some request)
        mainSubID eid, mainSubID = op.member ∧ k = op.key := by
    simp only [entitiesOps, List.mem_flatMap]
    constructor
    · rintro ⟨op, ⟨eid, heid, hop⟩, h⟩
      exact ⟨eid, heid, op, hop, h⟩
    · rintro ⟨eid, heid, op, hop, h⟩
      exact ⟨op, ⟨eid, heid, hop⟩, h⟩
  rw [hkey]
  simp only [exists_entityOps_iff hact, true_and]

theorem mem_byType {request : SubscribeContextRequest} {type : String} (hact : action ≠ .delete)
    (hsimple : request.isSimplyByType = true) :
    mainSubID ∈ (applyOps index (entitiesOps action (some request) mainSubID eids)).slice
      (genWildCard type) ↔ mainSubID ∈ index.slice (genWildCard type) ∨
        (∃ e ∈ request.entities, e.type = type) ∧ ∃ e ∈ eids, e.type = type := by
  rw [mem_applyOps_entitiesOps hact]
  simp only [if_pos hsimple]
  refine or_congr_right ?_
  constructor
  · rintro ⟨eid, heid, hkey, hlisted⟩
    obtain rfl := genWildCard_injective hkey
    exact ⟨hlisted, eid, heid, rfl⟩
  · rintro ⟨hlisted, eid, heid, rfl⟩
    exact ⟨eid, heid, rfl, hlisted⟩

end Operations

-- lists of ids in which none occurs twice
def NoDup (index : Index) : Prop := ∀ k, (index.slice k).Nodup

theorem noDup_appendKey (h : NoDup index) :
    NoDup (appendKey index id subID) ↔ subID ∉ index.slice id := by
  constructor
  · intro hall hmem
    have hid := hall id
    rw [slice_appendKey, if_pos rfl, List.nodup_append] at hid
    exact hid.2.2 subID hmem subID (by simp) rfl
  · intro hmem k
    rw [slice_appendKey]
    split_ifs
    · refine List.nodup_append.mpr ⟨h id, List.nodup_singleton _, ?_⟩
      rintro a ha b hb rfl
      exact hmem (List.mem_singleton.mp hb ▸ ha)
    · exact h k

theorem noDup_addKey (h : NoDup index) : NoDup (addKey index id subID) := by
  unfold addKey
  split_ifs with hmem
  · exact h
  · exact (noDup_appendKey h).mpr (by simpa using hmem)

theorem noDup_deleteFromIndex (h : NoDup index) : NoDup (deleteFromIndex index id subID) := by
  intro k
  rw [slice_deleteFromIndex]
  split_ifs
  · exact (h id).erase _
  · exact h k

section Settled

variable {op : IndexOp} {ops : List IndexOp} {id subID : String}

-- an operation that changes nothing any more
def IndexOp.Settled (index : Index) : IndexOp → Prop
  | .add id subID => subID ∈ index.slice id
  | .append _ _ => False
  | .remove id subID => subID ∉ index.slice id

-- nothing is appended unchecked, and no id is both added to a list and removed from it
def Consistent (ops : List IndexOp) : Prop :=
  ∀ op ∈ ops, match op with
    | .add id subID => .remove id subID ∉ ops
    | .append _ _ => False
    | .remove id subID => .add id subID ∉ ops

theorem apply_of_settled (h : op.Settled index) : op.apply index = index := by
  cases op with
  | add id subID => exact if_pos (List.contains_iff_mem.mpr h)
  | append id subID => exact h.elim
  | remove id subID => exact deleteFromIndex_of_notMem h

theorem applyOps_of_settled (h : ∀ op ∈ ops, op.Settled index) : applyOps index ops = index := by
  induction ops with
  | nil => rfl
  | cons op ops ih =>
    rw [applyOps_cons, apply_of_settled (h op List.mem_cons_self)]
    exact ih (fun o ho => h o (List.mem_cons_of_mem _ ho))

theorem mem_apply_of_kept (h : subID ∈ index.slice id) (hop : op ≠ .remove id subID) :
    subID ∈ (op.apply index).slice id := by
  cases op with
  | add id' subID' => exact mem_addKey.mpr (Or.inl h)
  | append id' subID' => exact mem_appendKey.mpr (Or.inl h)
  | remove id' subID' =>
    rw [IndexOp.apply, slice_deleteFromIndex]
    split_ifs with hid
    · subst hid
      refine (List.mem_erase_of_ne ?_).mpr h
      rintro rfl
      exact hop rfl
    · exact h

theorem notMem_apply_of_gone (h : subID ∉ index.slice id) (hadd : op ≠ .add id subID)
    (happend : op ≠ .append id subID) : subID ∉ (op.apply index).slice id := by
  cases op with
  | add id' subID' =>
    refine fun hmem => (mem_addKey.mp hmem).elim h ?_
    rintro ⟨rfl, rfl⟩
    exact hadd rfl
  | append id' subID' =>
    refine fun hmem => (mem_appendKey.mp hmem).elim h ?_
    rintro ⟨rfl, rfl⟩
    exact happend rfl
  | remove id' subID' =>
    rw [IndexOp.apply, slice_deleteFromIndex]
    split_ifs with hid
    · subst hid
      exact fun hmem => h (List.mem_of_mem_erase hmem)
    · exact h

theorem mem_applyOps_of_kept (h : subID ∈ index.slice id) (hops : .remove id subID ∉ ops) :
    subID ∈ (applyOps index ops).slice id := by
  induction ops generalizing index with
  | nil => exact h
  | cons op ops ih =>
    rw [List.mem_cons, not_or] at hops
    exact ih (mem_apply_of_kept h (Ne.symm hops.1)) hops.2

theorem notMem_applyOps_of_gone (h : subID ∉ index.slice id) (hadd : .add id subID ∉ ops)
    (happend : .append id subID ∉ ops) : subID ∉ (applyOps index ops).slice id := by
  induction ops generalizing index with
  | nil => exact h
  | cons op ops ih =>
    rw [List.mem_cons, not_or] at hadd happend
    exact ih (notMem_apply_of_gone h (Ne.symm hadd.1) (Ne.symm happend.1)) hadd.2 happend.2

theorem noDup_apply (h : NoDup index) (hop : ∀ id subID, op ≠ .append id subID) :
    NoDup (op.apply index) := by
  cases op with
  | add id subID => exact noDup_addKey h
  | append id subID => exact absurd rfl (hop id subID)
  | remove id subID => exact noDup_deleteFromIndex h

theorem noDup_applyOps (h : NoDup index) (hops : ∀ id subID, .append id subID ∉ ops) :
    NoDup (applyOps index ops) := by
  induction ops generalizing index with
  | nil => exact h
  | cons op ops ih =>
    refine ih (noDup_apply h (fun id subID heq => ?_)) (fun id subID hmem => ?_)
    · exact hops id subID (heq ▸ List.mem_cons_self)
    · exact hops id subID (List.mem_cons_of_mem _ hmem)

theorem settled_applyOps (h : NoDup index) (hops : Consistent ops) (hop : op ∈ ops) :
    op.Settled (applyOps index ops) := by
  have happend : ∀ id subID, IndexOp.append id subID ∉ ops := fun id subID hmem => hops _ hmem
  have hthis := hops op hop
  obtain ⟨before, after, rfl⟩ := List.append_of_mem hop
  rw [applyOps_append, applyOps_cons]
  have hbefore : NoDup (applyOps index before) :=
    noDup_applyOps h (fun id subID hmem => happend id subID (List.mem_append_left _ hmem))
  cases op with
  | add id subID =>
    have hadded : subID ∈ ((IndexOp.add id subID).apply (applyOps index before)).slice id :=
      mem_addKey.mpr (Or.inr ⟨rfl, rfl⟩)
    exact mem_applyOps_of_kept hadded (fun hmem => hthis (by simp [hmem]))
  | append id subID => exact happend id subID hop
  | remove id subID =>
    have hremoved : subID ∉ ((IndexOp.remove id subID).apply (applyOps index before)).slice id := by
      rw [IndexOp.apply, slice_deleteFromIndex, if_pos rfl]
      exact (hbefore id).not_mem_erase
    exact notMem_applyOps_of_gone hremoved (fun hmem => hthis (by simp [hmem]))
      (fun hmem => happend id subID (by simp [hmem]))

-- a second round of the same operations finds its work done
theorem applyOps_twice (h : NoDup index) (hops : Consistent ops) :
    applyOps (applyOps index ops) ops = applyOps index ops :=
  applyOps_of_settled (fun _ hop => settled_applyOps h hops hop)

end Settled

section Specification

variable {cfg : Config} {action : Action} {behind : Option SubscribeContextRequest}
  {answer : Option String} {registration : ContextRegistration} {tb : ThinBroker}

theorem appendToIndex_eq (id subID : String) (tb : ThinBroker) :
    appendToIndex id subID tb =
      ⟨withIndex tb (appendKey tb.entityId2Subcriptions id subID), .done⟩ := rfl

theorem addToIndex_eq (id subID : String) (tb : ThinBroker) :
    addToIndex id subID tb =
      ⟨withIndex tb (addKey tb.entityId2Subcriptions id subID), .done⟩ := by
  unfold addToIndex addKey
  split_ifs <;> rfl

theorem each_addToIndex (ids : List String) (subID : String) (tb : ThinBroker) :
    each (fun id => addToIndex id subID) ids tb =
      ⟨withIndex tb (applyOps tb.entityId2Subcriptions (ids.map (.add · subID))), .done⟩ := by
  induction ids generalizing tb with
  | nil => rfl
  | cons id ids ih =>
    have hd : (addToIndex id subID tb).exit = .done := by rw [addToIndex_eq]
    rw [each, seq_of_done hd, ih, addToIndex_eq]
    rfl

theorem associateEntity_eq (eid : EntityId) (tb : ThinBroker) :
    associateEntity action behind.isNone behind mainSubID eid tb =
      ⟨withIndex tb (applyOps tb.entityId2Subcriptions
        (entityOps action behind mainSubID eid)), .done⟩ := by
  cases action with
  | delete => rfl
  | create | update =>
    cases behind with
    | none => exact addToIndex_eq _ _ tb
    | some request =>
      by_cases hsimple : request.isSimplyByType = true
      · simpa [associateEntity, askSimplyByType, hsimple, addWildCards, entityOps] using
          each_addToIndex _ mainSubID tb
      · simp only [associateEntity, askSimplyByType, hsimple, entityOps, Option.isNone_some,
          Bool.false_eq_true, if_false]
        first | exact appendToIndex_eq eid.id mainSubID tb | exact addToIndex_eq eid.id mainSubID tb

theorem section_eq {h : Handler ThinBroker} {g : Index → Index}
    (hh : ∀ tb, h tb = ⟨withIndex tb (g tb.entityId2Subcriptions), .done⟩) (htb : Unlocked tb) :
    seq lockE2sub (seq h unlockE2sub) tb =
      ⟨withIndex tb (g tb.entityId2Subcriptions), .done⟩ := by
  have hlock := unlocked_of_locked htb
  have hl : tb.e2subLocked = false := htb
  rw [seq_of_done (by rw [hlock]), hlock, seq_of_done (by rw [hh]), hh]
  simp [unlockE2sub, Handler.modify, withIndex, hl]

-- what a broker subscribes to at the provider of a registration
def remoteEntities (index : Index) (behind : Option SubscribeContextRequest) (mainSubID : String)
    (registration : ContextRegistration) : List EntityId :=
  match behind with
  | some request =>
      if request.isSimplyByType then missingEntities index mainSubID request registration
      else registration.entityIdList
  | none => registration.entityIdList

def subscribedRemote (cfg : Config) (action : Action) (mainSubID : String)
    (answer : Option String) (registration : ContextRegistration) (tb : ThinBroker)
    (entities : List EntityId) : ThinBroker :=
  if entities.isEmpty || action == .delete then tb
  else match answer with
    | none => tb
    | some sid => tb.addRemote mainSubID sid (remoteRequest cfg entities registration)

def contacted (cfg : Config) (action : Action) (behind : Option SubscribeContextRequest)
    (mainSubID : String) (answer : Option String) (registration : ContextRegistration)
    (tb : ThinBroker) : ThinBroker :=
  if registration.providingApplication = cfg.myURL then tb
  else subscribedRemote cfg action mainSubID answer registration tb
    (remoteEntities tb.entityId2Subcriptions behind mainSubID registration)

theorem subscribeRemote_eq (entities : List EntityId) (tb : ThinBroker) :
    subscribeRemote cfg action mainSubID answer registration entities tb =
      ⟨subscribedRemote cfg action mainSubID answer registration tb entities, .done⟩ := by
  unfold subscribeRemote subscribedRemote
  split_ifs
  · rfl
  · cases answer <;> rfl

theorem contactProvider_eq (tb : ThinBroker) :
    contactProvider cfg action behind.isNone behind mainSubID answer registration tb =
      ⟨contacted cfg action behind mainSubID answer registration tb, .done⟩ := by
  unfold contactProvider contacted
  by_cases howner : registration.providingApplication = cfg.myURL
  · rw [if_pos howner, if_pos howner]
    rfl
  · rw [if_neg howner, if_neg howner]
    cases behind with
    | none => exact subscribeRemote_eq _ tb
    | some request => exact subscribeRemote_eq _ tb

def registered (cfg : Config) (action : Action) (behind : Option SubscribeContextRequest)
    (mainSubID : String) (answer : Option String) (registration : ContextRegistration)
    (tb : ThinBroker) : ThinBroker :=
  withIndex (contacted cfg action behind mainSubID answer registration tb)
    (applyOps tb.entityId2Subcriptions
      (entitiesOps action behind mainSubID registration.entityIdList))

theorem index_contacted (tb : ThinBroker) :
    (contacted cfg action behind mainSubID answer registration tb).entityId2Subcriptions =
      tb.entityId2Subcriptions := by
  unfold contacted subscribedRemote
  split_ifs
  · rfl
  · rfl
  · cases answer <;> rfl

theorem unlocked_contacted (htb : Unlocked tb) :
    Unlocked (contacted cfg action behind mainSubID answer registration tb) := by
  unfold contacted subscribedRemote
  split_ifs
  · exact htb
  · exact htb
  · cases answer <;> exact htb

theorem each_ops {α : Type} {f : α → Handler ThinBroker} {ops : α → List IndexOp}
    (hf : ∀ a tb, Unlocked tb →
      f a tb = ⟨withIndex tb (applyOps tb.entityId2Subcriptions (ops a)), .done⟩)
    (xs : List α) (htb : Unlocked tb) :
    each f xs tb =
      ⟨withIndex tb (applyOps tb.entityId2Subcriptions (xs.flatMap ops)), .done⟩ := by
  induction xs generalizing tb with
  | nil => rfl
  | cons a xs ih =>
    have hrest : Unlocked (withIndex tb (applyOps tb.entityId2Subcriptions (ops a))) := htb
    rw [each, seq_of_done (by rw [hf a tb htb]), hf a tb htb]
    dsimp only
    rw [ih hrest, List.flatMap_cons, applyOps_append]
    rfl

theorem each_associateEntity (eids : List EntityId) (htb : Unlocked tb) :
    each (fun eid => seq lockE2sub (seq
      (associateEntity action behind.isNone behind mainSubID eid) unlockE2sub)) eids tb =
      ⟨withIndex tb (applyOps tb.entityId2Subcriptions
        (entitiesOps action behind mainSubID eids)), .done⟩ :=
  each_ops (fun eid _ ht => section_eq
    (g := fun index => applyOps index (entityOps action behind mainSubID eid))
    (associateEntity_eq eid) ht) eids htb

theorem handleRegistration_eq (htb : Unlocked tb) :
    handleRegistration cfg action behind.isNone behind mainSubID answer registration tb =
      ⟨registered cfg action behind mainSubID answer registration tb, .done⟩ := by
  have hcontact : contactProvider cfg action behind.isNone behind mainSubID answer registration
      tb = ⟨contacted cfg action behind mainSubID answer registration tb, .done⟩ :=
    contactProvider_eq tb
  rw [handleRegistration, seq_of_done (by rw [hcontact]), hcontact,
    each_associateEntity _ (unlocked_contacted htb), index_contacted]
  rfl

def remote (cfg : Config) (action : Action) (behind : Option SubscribeContextRequest)
    (mainSubID : String) (registration : ContextRegistration) (index : Index) :
    Option SubscribeContextRequest :=
  let entities := remoteEntities index behind mainSubID registration
  if registration.providingApplication = cfg.myURL ∨ entities = [] ∨ action = .delete then none
  else some (remoteRequest cfg entities registration)

theorem contacted_some (sid : String) (tb : ThinBroker) :
    contacted cfg action behind mainSubID (some sid) registration tb =
      match remote cfg action behind mainSubID registration tb.entityId2Subcriptions with
      | none => tb
      | some request => tb.addRemote mainSubID sid request := by
  unfold contacted subscribedRemote remote
  by_cases howner : registration.providingApplication = cfg.myURL
  · simp [howner]
  · by_cases hskip : remoteEntities tb.entityId2Subcriptions behind mainSubID registration = [] ∨
        action = .delete
    · simp [howner, hskip]
    · simp [howner, hskip]

-- the subscription is looked up once, before the first registration is processed
def notified (cfg : Config) (answers : Nat → Option String) (mainSubID : String)
    (req : NotifyContextAvailabilityRequest) (behind : Option SubscribeContextRequest)
    (tb : ThinBroker) : ThinBroker :=
  req.contextRegistrationResponseList.zipIdx.foldl (fun tb registrationResp =>
    registered cfg (actionOf req.errorCode.code) behind mainSubID (answers registrationResp.2)
      registrationResp.1.contextRegistration tb) tb

theorem logSubscription_eq (tb : ThinBroker) :
    logSubscription cfg behind.isNone behind tb = ⟨tb, .done⟩ := by
  unfold logSubscription
  cases behind with
  | none => simp [skip]
  | some request =>
    split_ifs <;> rfl

theorem unlocked_registered (htb : Unlocked tb) :
    Unlocked (registered cfg action behind mainSubID answer registration tb) :=
  unlocked_contacted htb

theorem handleNGSI9Notify_eq {answers : Nat → Option String}
    {req : NotifyContextAvailabilityRequest} {isProsumer : Bool} (htb : Unlocked tb)
    (hbehind : behind = if isProsumer then none else tb.subscriptions.get mainSubID)
    (hknown : isProsumer = behind.isNone) :
    handleNGSI9Notify cfg answers mainSubID req isProsumer tb =
      ⟨notified cfg answers mainSubID req behind tb, .done⟩ := by
  have hlog : logSubscription cfg isProsumer behind tb = ⟨tb, .done⟩ := by
    rw [hknown]
    exact logSubscription_eq tb
  unfold handleNGSI9Notify
  rw [← hbehind, seq_of_done (by rw [hlog]), hlog]
  refine each_eq_foldl (P := Unlocked) ?_ (fun _ _ h => unlocked_registered h) htb
  intro registrationResp _ t ht
  rw [hknown]
  exact handleRegistration_eq ht

theorem handleNGSI9Notify_of_get {answers : Nat → Option String}
    {req : NotifyContextAvailabilityRequest} {request : SubscribeContextRequest}
    (htb : Unlocked tb) (hget : tb.subscriptions.get mainSubID = some request) :
    handleNGSI9Notify cfg answers mainSubID req false tb =
      ⟨notified cfg answers mainSubID req (some request) tb, .done⟩ :=
  handleNGSI9Notify_eq htb hget.symm rfl

theorem index_foldl_registered {answers : Nat → Option String}
    (rs : List (ContextRegistrationResponse × Nat)) (tb : ThinBroker) :
    (rs.foldl (fun tb registrationResp => registered cfg action behind mainSubID
      (answers registrationResp.2) registrationResp.1.contextRegistration tb)
      tb).entityId2Subcriptions = applyOps tb.entityId2Subcriptions (entitiesOps action behind
        mainSubID (rs.flatMap (fun r => r.1.contextRegistration.entityIdList))) := by
  induction rs generalizing tb with
  | nil => rfl
  | cons r rs ih =>
    rw [List.foldl_cons, ih, List.flatMap_cons, entitiesOps, entitiesOps, List.flatMap_append,
      applyOps_append]
    rfl

theorem flatMap_zipIdx {α β : Type} (xs : List α) (f : α → List β) :
    xs.zipIdx.flatMap (fun x => f x.1) = xs.flatMap f := by
  conv_rhs => rw [← List.zipIdx_map_fst 0 xs]
  rw [List.flatMap_map]

theorem index_notified (answers : Nat → Option String) (req : NotifyContextAvailabilityRequest)
    (tb : ThinBroker) :
    (notified cfg answers mainSubID req behind tb).entityId2Subcriptions =
      applyOps tb.entityId2Subcriptions (entitiesOps (actionOf req.errorCode.code) behind mainSubID
        (entitiesOf req)) := by
  rw [notified, index_foldl_registered, flatMap_zipIdx (f := fun r : ContextRegistrationResponse =>
    r.contextRegistration.entityIdList)]
  rfl

theorem get_registered {k : String} (h : ∀ sid, answer = some sid → sid ≠ k) (tb : ThinBroker) :
    (registered cfg action behind mainSubID answer registration tb).subscriptions.get k =
      tb.subscriptions.get k := by
  unfold registered contacted subscribedRemote
  split_ifs
  · rfl
  · rfl
  · cases answer with
    | none => rfl
    | some sid => exact GoMap.get_set_ne _ _ (h sid rfl).symm

theorem get_notified {answers : Nat → Option String} {k : String}
    {req : NotifyContextAvailabilityRequest}
    (h : ∀ i < req.contextRegistrationResponseList.length, ∀ sid, answers i = some sid → sid ≠ k)
    (tb : ThinBroker) :
    (notified cfg answers mainSubID req behind tb).subscriptions.get k =
      tb.subscriptions.get k := by
  have hall : ∀ r ∈ req.contextRegistrationResponseList.zipIdx, ∀ sid,
      answers r.2 = some sid → sid ≠ k :=
    fun r hr => h r.2 (by simpa using (List.mem_zipIdx hr).2.1)
  unfold notified
  generalize req.contextRegistrationResponseList.zipIdx = rs at hall
  induction rs generalizing tb with
  | nil => rfl
  | cons r rs ih =>
    rw [List.foldl_cons, ih _ (fun r' hr' => hall r' (List.mem_cons_of_mem _ hr')),
      get_registered (hall r List.mem_cons_self)]

-- a subscription of another broker is indexed at once
def ownEntityOps (subReq : SubscribeContextRequest) (subID : String) (entity : EntityId) :
    List IndexOp :=
  if subReq.isSimplyByType then (subReq.getTypeWildCards none).map (.add · subID)
  else [.add entity.id subID]

def ownOps (subReq : SubscribeContextRequest) (subID : String) : List IndexOp :=
  if subReq.subscriber.isInternal then subReq.entities.flatMap (ownEntityOps subReq subID) else []

theorem mem_ownOps {op : IndexOp} {subReq : SubscribeContextRequest} {subID : String}
    (h : op ∈ ownOps subReq subID) : ∃ id, op = .add id subID := by
  unfold ownOps ownEntityOps at h
  split_ifs at h
  · obtain ⟨entity, -, h⟩ := List.mem_flatMap.mp h
    obtain ⟨w, -, rfl⟩ := List.mem_map.mp h
    exact ⟨w, rfl⟩
  · obtain ⟨entity, -, h⟩ := List.mem_flatMap.mp h
    exact ⟨entity.id, List.mem_singleton.mp h⟩
  · cases h

theorem indexOwn_eq (subReq : SubscribeContextRequest) (subID : String) (entity : EntityId)
    (htb : Unlocked tb) :
    indexOwn subReq subID entity tb = ⟨withIndex tb (applyOps tb.entityId2Subcriptions
      (ownEntityOps subReq subID entity)), .done⟩ := by
  unfold indexOwn ownEntityOps
  split_ifs
  · exact section_eq (g := fun index => applyOps index
      ((subReq.getTypeWildCards none).map (.add · subID))) (each_addToIndex _ subID) htb
  · exact section_eq (g := fun index => addKey index entity.id subID) (addToIndex_eq _ _) htb

theorem subscribeContext_eq (subReq : SubscribeContextRequest) (subID : String)
    (htb : Unlocked tb) :
    subscribeContext subReq subID tb = ⟨withIndex (tb.putSubscription subID subReq)
      (applyOps tb.entityId2Subcriptions (ownOps subReq subID)), .done⟩ := by
  unfold subscribeContext ownOps
  rw [seq_of_done rfl]
  split_ifs
  · exact each_ops (fun entity _ ht => indexOwn_eq subReq subID entity ht) subReq.entities htb
  · rfl

end Specification

end FogFlow.Broker
