import FogFlow.Broker.Forwarding
import FogFlow.Library.Pool

namespace FogFlow.Broker.ConcurrentUpdates

open Ngsi Execution Network Forwarding

-- the critical sections of UpdateContext2LocalSite and of deleteEntity, in their order
inductive Call where
  | checkMetadata (ctxElem : ContextElement) (correlator : String)
  | register (ctxElem : ContextElement) (correlator : String)
  | store (ctxElem : ContextElement) (correlator : String)
  | remove (eid : String)
  | lockIndex (ctxElem : ContextElement) (correlator : String) (checkSelectedAttributes : Bool)
  | notify (ctxElem : ContextElement) (correlator : String) (checkSelectedAttributes : Bool)
      (subscriberList : List String)
  | unregister (eid : String)

-- which of the two kinds of change an entity has seen last
inductive Change where
  | stored
  | deleted
deriving DecidableEq, Repr

-- a write lock is held within one section only, so the readers are what is left to count
structure System where
  entities : Entities
  entitiesReaders : Nat
  e2subReaders : Nat
  calls : List Call
  sent : List (ContextElement × String)
  nilDereferences : Nat
  lastChange : GoMap Change

def System.initial (entities : Entities) : System := ⟨entities, 0, 0, [], [], 0, ∅⟩

inductive Label where
  | updateContext2LocalSite (ctxElem : ContextElement) (correlator : String)
  | deleteEntity (eid : String)
  | run (call : Nat)

def emptyElement (eid : String) : ContextElement := ⟨⟨"", false, eid⟩, "", [], []⟩

def skips (tb : ThinBroker) (correlator sid : String) : Bool :=
  isProsumerSubscription correlator sid || beTheSame tb correlator sid

-- the logger reads the attributes of a subscription that may be gone
def loggerPanics (debugEnabled : Bool) (tb : ThinBroker) (sid : String) : Bool :=
  debugEnabled && (tb.subscriptions.get sid).isNone

def reads (debugEnabled : Bool) (tb : ThinBroker) (correlator sid : String) : Bool :=
  !skips tb correlator sid && !loggerPanics debugEnabled tb sid

def afterNotify (ctxElem : ContextElement) (checkSelectedAttributes : Bool) : List Call :=
  if checkSelectedAttributes then [] else [.unregister ctxElem.entity.id]

-- a panic runs the deferred unlock of the index, the lock of the entities stays with its reader
def notifyNext (debugEnabled : Bool) (tb : ThinBroker) (s : System) (ctxElem : ContextElement)
    (correlator : String) (checkSelectedAttributes : Bool) (sid : String) (rest : List String) :
    System × List Call :=
  if skips tb correlator sid then
    (s, [.notify ctxElem correlator checkSelectedAttributes rest])
  else if checkSelectedAttributes && loggerPanics debugEnabled tb sid then
    ({ s with e2subReaders := s.e2subReaders - 1 }, [])
  else match elementFor tb s.entities ctxElem checkSelectedAttributes sid with
    | none =>
      ({ s with
          entitiesReaders := s.entitiesReaders + 1
          e2subReaders := s.e2subReaders - 1
          nilDereferences := s.nilDereferences + 1 }, [])
    | some element =>
      ({ s with sent := s.sent ++ [(element, sid)] },
        [.notify ctxElem correlator checkSelectedAttributes rest])

def advance (debugEnabled : Bool) (tb : ThinBroker) (s : System) :
    Call → Option (System × List Call)
  | .checkMetadata ctxElem correlator =>
    if s.entitiesReaders = 0 then
      some (s, if hasUpdatedMetadata ctxElem (s.entities.get ctxElem.entity.id)
        then [.register ctxElem correlator] else [.store ctxElem correlator])
    else none
  | .register ctxElem correlator => some (s, [.store ctxElem correlator])
  | .store ctxElem correlator =>
    if s.entitiesReaders = 0 then
      some ({ s with
        entities := updateContextElement s.entities ctxElem
        lastChange := s.lastChange.set ctxElem.entity.id .stored },
        [.lockIndex ctxElem correlator true])
    else none
  | .remove eid =>
    if s.entitiesReaders = 0 then
      some ({ s with
        entities := s.entities.delete eid
        lastChange := s.lastChange.set eid .deleted }, [.lockIndex (emptyElement eid) "" false])
    else none
  | .lockIndex ctxElem correlator checkSelectedAttributes =>
    if tb.e2subLocked then none
    else some ({ s with e2subReaders := s.e2subReaders + 1 },
      [.notify ctxElem correlator checkSelectedAttributes
        (subscriberList tb ctxElem.entity.id ctxElem.getTypeWildCard)])
  | .notify ctxElem _ checkSelectedAttributes [] =>
    some ({ s with e2subReaders := s.e2subReaders - 1 },
      afterNotify ctxElem checkSelectedAttributes)
  | .notify ctxElem correlator checkSelectedAttributes (sid :: rest) =>
    some (notifyNext debugEnabled tb s ctxElem correlator checkSelectedAttributes sid rest)
  | .unregister _ => some (s, [])

def step (debugEnabled : Bool) (tb : ThinBroker) (s : System) : Label → Option System
  | .updateContext2LocalSite ctxElem correlator =>
    some { s with calls := s.calls ++ [.checkMetadata ctxElem correlator] }
  | .deleteEntity eid => some { s with calls := s.calls ++ [.remove eid] }
  | .run i => s.calls[i]?.bind (fun call =>
      (advance debugEnabled tb s call).map (fun next =>
        { next.1 with calls := Pool.replace s.calls i next.2 }))

def Call.notifies : Call → Bool
  | .notify _ _ _ _ => true
  | _ => false

-- the locks that are held are those of the calls that still notify
structure Safe (s : System) : Prop where
  nilDereferences : s.nilDereferences = 0
  entitiesReaders : s.entitiesReaders = 0
  e2subReaders : s.e2subReaders = s.calls.countP Call.notifies

def ReadsStored (debugEnabled : Bool) (tb : ThinBroker) (s : System) : Call → Prop
  | .notify ctxElem correlator true (sid :: _) => reads debugEnabled tb correlator sid = true →
    s.lastChange.get ctxElem.entity.id ≠ some .deleted
  | _ => True

-- an update reads for a subscriber only while its entity has not been deleted since it was stored
def NotDeleted (debugEnabled : Bool) (tb : ThinBroker) (s : System) : Label → Prop
  | .run i => ∀ call, s.calls[i]? = some call → ReadsStored debugEnabled tb s call
  | _ => True

def Call.hasStored (eid : String) : Call → Prop
  | .lockIndex ctxElem _ true => ctxElem.entity.id = eid
  | .notify ctxElem _ true _ => ctxElem.entity.id = eid
  | _ => False

structure Tracked (s : System) : Prop where
  stored : ∀ eid, s.lastChange.get eid = some .stored → s.entities.get eid ≠ none
  deleted : ∀ eid, s.lastChange.get eid = some .deleted → s.entities.get eid = none
  changed : ∀ call ∈ s.calls, ∀ eid, call.hasStored eid → s.lastChange.get eid ≠ none

section

variable {debugEnabled : Bool} {tb : ThinBroker} {s t : System} {call : Call} {next : List Call}
  {i : Nat} {label : Label}

def crashes (debugEnabled : Bool) (tb : ThinBroker) (s : System) : Call → Prop
  | .notify ctxElem correlator true (sid :: _) =>
    reads debugEnabled tb correlator sid = true ∧ s.entities.get ctxElem.entity.id = none
  | _ => False

theorem safe_replace (hs : Safe s) (hget : s.calls[i]? = some call)
    (hnil : t.nilDereferences = s.nilDereferences) (hent : t.entitiesReaders = s.entitiesReaders)
    (he2sub : t.e2subReaders + (if call.notifies then 1 else 0) =
      s.e2subReaders + next.countP Call.notifies) :
    Safe { t with calls := Pool.replace s.calls i next } where
  nilDereferences := hnil.trans hs.nilDereferences
  entitiesReaders := hent.trans hs.entitiesReaders
  e2subReaders := by
    have hcount := Pool.countP_replace hget next (p := Call.notifies)
    have hreaders := hs.e2subReaders
    change t.e2subReaders = (Pool.replace s.calls i next).countP Call.notifies
    omega

theorem e2subReaders_pos (hs : Safe s) (hget : s.calls[i]? = some call)
    (hn : call.notifies = true) : 0 < s.e2subReaders := by
  rw [hs.e2subReaders, List.countP_pos_iff]
  exact ⟨call, List.mem_of_getElem? hget, hn⟩

theorem countP_afterNotify (ctxElem : ContextElement) (checkSelectedAttributes : Bool) :
    (afterNotify ctxElem checkSelectedAttributes).countP Call.notifies = 0 := by
  cases checkSelectedAttributes <;> rfl

theorem safe_notifyNext_iff {ctxElem : ContextElement} {correlator sid : String}
    {checkSelectedAttributes : Bool} {rest : List String} (hs : Safe s)
    (hget : s.calls[i]? = some (.notify ctxElem correlator checkSelectedAttributes (sid :: rest)))
    (h : notifyNext debugEnabled tb s ctxElem correlator checkSelectedAttributes sid rest =
      (t, next)) :
    Safe { t with calls := Pool.replace s.calls i next } ↔
      ¬ crashes debugEnabled tb s
        (.notify ctxElem correlator checkSelectedAttributes (sid :: rest)) := by
  have hpos := e2subReaders_pos hs hget rfl
  cases hskip : skips tb correlator sid with
  | true =>
    simp only [notifyNext, hskip, if_true, Prod.mk.injEq] at h
    obtain ⟨rfl, rfl⟩ := h
    refine iff_of_true (safe_replace hs hget rfl rfl rfl) ?_
    cases checkSelectedAttributes <;> simp [crashes, reads, hskip]
  | false =>
    cases checkSelectedAttributes with
    | false =>
      simp only [notifyNext, hskip, elementFor, Bool.false_and, Bool.false_eq_true, if_false,
        Prod.mk.injEq] at h
      obtain ⟨rfl, rfl⟩ := h
      exact iff_of_true (safe_replace hs hget rfl rfl rfl) not_false
    | true =>
      cases hpanic : loggerPanics debugEnabled tb sid with
      | true =>
        simp only [notifyNext, hskip, hpanic, Bool.false_eq_true, if_false, Bool.and_self, if_true,
          Prod.mk.injEq] at h
        obtain ⟨rfl, rfl⟩ := h
        refine iff_of_true (safe_replace hs hget rfl rfl ?_) ?_
        · simp only [Call.notifies, if_true, List.countP_nil]
          omega
        · simp [crashes, reads, hpanic]
      | false =>
        cases hent : s.entities.get ctxElem.entity.id with
        | none =>
          simp only [notifyNext, hskip, hpanic, elementFor, hent, Bool.false_eq_true, if_false,
            Bool.and_false, if_true, Option.map_none, Prod.mk.injEq] at h
          obtain ⟨rfl, rfl⟩ := h
          refine iff_of_false (fun hsafe => absurd hsafe.nilDereferences (by simp)) ?_
          simp [crashes, reads, hskip, hpanic, hent]
        | some element =>
          simp only [notifyNext, hskip, hpanic, elementFor, hent, Bool.false_eq_true, if_false,
            Bool.and_false, if_true, Option.map_some, Prod.mk.injEq] at h
          obtain ⟨rfl, rfl⟩ := h
          refine iff_of_true (safe_replace hs hget rfl rfl rfl) ?_
          simp [crashes, hent]

theorem safe_advance_iff (hs : Safe s) (hget : s.calls[i]? = some call)
    (h : advance debugEnabled tb s call = some (t, next)) :
    Safe { t with calls := Pool.replace s.calls i next } ↔ ¬ crashes debugEnabled tb s call := by
  cases call with
  | checkMetadata ctxElem correlator =>
    simp only [advance, Option.ite_none_right_eq_some, Option.some.injEq, Prod.mk.injEq] at h
    obtain ⟨-, rfl, rfl⟩ := h
    refine iff_of_true (safe_replace hs hget rfl rfl ?_) not_false
    simp only [Call.notifies, Bool.false_eq_true, if_false]
    split_ifs <;> rfl
  | register ctxElem correlator =>
    simp only [advance, Option.some.injEq, Prod.mk.injEq] at h
    obtain ⟨rfl, rfl⟩ := h
    exact iff_of_true (safe_replace hs hget rfl rfl rfl) not_false
  | store ctxElem correlator =>
    simp only [advance, Option.ite_none_right_eq_some, Option.some.injEq, Prod.mk.injEq] at h
    obtain ⟨-, rfl, rfl⟩ := h
    exact iff_of_true (safe_replace hs hget rfl rfl rfl) not_false
  | remove eid =>
    simp only [advance, Option.ite_none_right_eq_some, Option.some.injEq, Prod.mk.injEq] at h
    obtain ⟨-, rfl, rfl⟩ := h
    exact iff_of_true (safe_replace hs hget rfl rfl rfl) not_false
  | lockIndex ctxElem correlator checkSelectedAttributes =>
    simp only [advance, Option.ite_none_left_eq_some, Option.some.injEq, Prod.mk.injEq] at h
    obtain ⟨-, rfl, rfl⟩ := h
    exact iff_of_true (safe_replace hs hget rfl rfl rfl) not_false
  | notify ctxElem correlator checkSelectedAttributes sids =>
    cases sids with
    | nil =>
      have hpos := e2subReaders_pos hs hget rfl
      simp only [advance, Option.some.injEq, Prod.mk.injEq] at h
      obtain ⟨rfl, rfl⟩ := h
      refine iff_of_true (safe_replace hs hget rfl rfl ?_) ?_
      · simp only [Call.notifies, if_true, countP_afterNotify]
        omega
      · cases checkSelectedAttributes <;> exact not_false
    | cons sid rest =>
      exact safe_notifyNext_iff hs hget (Option.some.inj h)
  | unregister eid =>
    simp only [advance, Option.some.injEq, Prod.mk.injEq] at h
    obtain ⟨rfl, rfl⟩ := h
    exact iff_of_true (safe_replace hs hget rfl rfl rfl) not_false

theorem readsStored_iff (ht : Tracked s) (hmem : call ∈ s.calls) :
    ReadsStored debugEnabled tb s call ↔ ¬ crashes debugEnabled tb s call := by
  cases call with
  | notify ctxElem correlator checkSelectedAttributes sids =>
    cases checkSelectedAttributes with
    | false => cases sids <;> exact iff_of_true trivial not_false
    | true =>
      cases sids with
      | nil => exact iff_of_true trivial not_false
      | cons sid rest =>
        have hchanged := ht.changed _ hmem ctxElem.entity.id rfl
        simp only [ReadsStored, crashes, not_and]
        refine imp_congr_right (fun _ => ?_)
        cases hlast : s.lastChange.get ctxElem.entity.id with
        | none => exact absurd hlast hchanged
        | some change =>
          cases change with
          | stored => simpa using ht.stored _ hlast
          | deleted => simpa using ht.deleted _ hlast
  | _ => exact iff_of_true trivial not_false

theorem Tracked.replace {i : Nat} {next : List Call} (ht : Tracked s)
    (hent : t.entities = s.entities) (hlast : t.lastChange = s.lastChange)
    (hnext : ∀ call ∈ next, ∀ eid, call.hasStored eid → s.lastChange.get eid ≠ none) :
    Tracked { t with calls := Pool.replace s.calls i next } := by
  refine ⟨?_, ?_, ?_⟩
  · simp only [hent, hlast]
    exact ht.stored
  · simp only [hent, hlast]
    exact ht.deleted
  · simp only [hlast]
    intro call hcall
    rcases Pool.mem_replace hcall with hcall | hcall
    · exact ht.changed call hcall
    · exact hnext call hcall

theorem get_set_ne_none {lastChange : GoMap Change} {eid k : String} {change : Change}
    (h : lastChange.get k ≠ none ∨ k = eid) : (lastChange.set eid change).get k ≠ none := by
  rw [GoMap.get_set]
  split_ifs with heq
  · simp
  · exact h.resolve_right heq

theorem Tracked.stores (ht : Tracked s) (i : Nat) (ctxElem : ContextElement)
    (correlator : String) : Tracked { s with
      entities := updateContextElement s.entities ctxElem
      lastChange := s.lastChange.set ctxElem.entity.id .stored
      calls := Pool.replace s.calls i [.lockIndex ctxElem correlator true] } := by
  refine ⟨fun eid h => ?_, fun eid h => ?_, fun call hcall eid hstored => get_set_ne_none ?_⟩
  · rw [GoMap.get_set] at h
    rw [get_updateContextElement]
    split_ifs with heq
    · simp
    · rw [if_neg heq] at h
      exact ht.stored eid h
  · rw [GoMap.get_set] at h
    rw [get_updateContextElement]
    split_ifs at h with heq
    · simp at h
    · rw [if_neg heq]
      exact ht.deleted eid h
  · rcases Pool.mem_replace hcall with hcall | hcall
    · exact Or.inl (ht.changed call hcall eid hstored)
    · obtain rfl := List.mem_singleton.mp hcall
      exact Or.inr hstored.symm

theorem Tracked.removes (ht : Tracked s) (i : Nat) (eid : String) : Tracked { s with
    entities := s.entities.delete eid
    lastChange := s.lastChange.set eid .deleted
    calls := Pool.replace s.calls i [.lockIndex (emptyElement eid) "" false] } := by
  refine ⟨fun k h => ?_, fun k h => ?_, fun call hcall k hstored => get_set_ne_none ?_⟩
  · rw [GoMap.get_set] at h
    rw [GoMap.get_delete]
    split_ifs at h with heq
    · simp at h
    · rw [if_neg heq]
      exact ht.stored k h
  · rw [GoMap.get_set] at h
    rw [GoMap.get_delete]
    split_ifs with heq
    · rfl
    · rw [if_neg heq] at h
      exact ht.deleted k h
  · rcases Pool.mem_replace hcall with hcall | hcall
    · exact Or.inl (ht.changed call hcall k hstored)
    · obtain rfl := List.mem_singleton.mp hcall
      exact hstored.elim

theorem tracked_notifyNext {ctxElem : ContextElement} {correlator sid : String}
    {checkSelectedAttributes : Bool} {rest : List String} (ht : Tracked s)
    (hmem : Call.notify ctxElem correlator checkSelectedAttributes (sid :: rest) ∈ s.calls)
    (i : Nat) : Tracked { (notifyNext debugEnabled tb s ctxElem correlator
      checkSelectedAttributes sid rest).1 with
      calls := Pool.replace s.calls i (notifyNext debugEnabled tb s ctxElem correlator
        checkSelectedAttributes sid rest).2 } := by
  have hrest : ∀ call ∈ [Call.notify ctxElem correlator checkSelectedAttributes rest], ∀ eid,
      call.hasStored eid → s.lastChange.get eid ≠ none := by
    intro call hcall eid hstored
    obtain rfl := List.mem_singleton.mp hcall
    refine ht.changed _ hmem eid ?_
    cases checkSelectedAttributes
    · exact hstored.elim
    · exact hstored
  simp only [notifyNext]
  split
  · exact ht.replace rfl rfl hrest
  · split
    · exact ht.replace rfl rfl (by simp)
    · split
      · exact ht.replace rfl rfl (by simp)
      · exact ht.replace rfl rfl hrest

theorem tracked_advance (ht : Tracked s) (hget : s.calls[i]? = some call)
    (h : advance debugEnabled tb s call = some (t, next)) :
    Tracked { t with calls := Pool.replace s.calls i next } := by
  have hmem := List.mem_of_getElem? hget
  cases call with
  | checkMetadata ctxElem correlator =>
    simp only [advance, Option.ite_none_right_eq_some, Option.some.injEq, Prod.mk.injEq] at h
    obtain ⟨-, rfl, rfl⟩ := h
    refine ht.replace rfl rfl (fun call hcall eid hstored => ?_)
    split_ifs at hcall
    · obtain rfl := List.mem_singleton.mp hcall
      exact hstored.elim
    · obtain rfl := List.mem_singleton.mp hcall
      exact hstored.elim
  | register ctxElem correlator =>
    simp only [advance, Option.some.injEq, Prod.mk.injEq] at h
    obtain ⟨rfl, rfl⟩ := h
    refine ht.replace rfl rfl (fun call hcall eid hstored => ?_)
    obtain rfl := List.mem_singleton.mp hcall
    exact hstored.elim
  | store ctxElem correlator =>
    simp only [advance, Option.ite_none_right_eq_some, Option.some.injEq, Prod.mk.injEq] at h
    obtain ⟨-, rfl, rfl⟩ := h
    exact ht.stores i ctxElem correlator
  | remove eid =>
    simp only [advance, Option.ite_none_right_eq_some, Option.some.injEq, Prod.mk.injEq] at h
    obtain ⟨-, rfl, rfl⟩ := h
    exact ht.removes i eid
  | lockIndex ctxElem correlator checkSelectedAttributes =>
    simp only [advance, Option.ite_none_left_eq_some, Option.some.injEq, Prod.mk.injEq] at h
    obtain ⟨-, rfl, rfl⟩ := h
    refine ht.replace rfl rfl (fun call hcall eid hstored => ?_)
    obtain rfl := List.mem_singleton.mp hcall
    cases checkSelectedAttributes
    · exact hstored.elim
    · exact ht.changed _ hmem eid hstored
  | notify ctxElem correlator checkSelectedAttributes sids =>
    cases sids with
    | nil =>
      simp only [advance, Option.some.injEq, Prod.mk.injEq] at h
      obtain ⟨rfl, rfl⟩ := h
      refine ht.replace rfl rfl (fun call hcall eid hstored => ?_)
      cases checkSelectedAttributes
      · obtain rfl := List.mem_singleton.mp hcall
        exact hstored.elim
      · exact absurd hcall List.not_mem_nil
    | cons sid rest =>
      obtain ⟨rfl, rfl⟩ := Prod.mk.inj (Option.some.inj h)
      exact tracked_notifyNext ht hmem i
  | unregister eid =>
    simp only [advance, Option.some.injEq, Prod.mk.injEq] at h
    obtain ⟨rfl, rfl⟩ := h
    exact ht.replace rfl rfl (by simp)

theorem Tracked.started (ht : Tracked s) (hcall : ∀ eid, ¬ call.hasStored eid) :
    Tracked { s with calls := s.calls ++ [call] } := by
  refine ⟨ht.stored, ht.deleted, fun other hother eid hstored => ?_⟩
  rcases List.mem_append.mp hother with hother | hother
  · exact ht.changed other hother eid hstored
  · obtain rfl := List.mem_singleton.mp hother
    exact absurd hstored (hcall eid)

theorem Safe.started (hs : Safe s) (hcall : call.notifies = false) :
    Safe { s with calls := s.calls ++ [call] } := by
  refine ⟨hs.nilDereferences, hs.entitiesReaders, ?_⟩
  simpa [hcall] using hs.e2subReaders

theorem run_cases (h : step debugEnabled tb s (.run i) = some t) :
    ∃ call u next, s.calls[i]? = some call ∧ advance debugEnabled tb s call = some (u, next) ∧
      t = { u with calls := Pool.replace s.calls i next } := by
  obtain ⟨call, hget, h⟩ := Option.bind_eq_some_iff.mp h
  obtain ⟨⟨u, next⟩, hadvance, rfl⟩ := Option.map_eq_some_iff.mp h
  exact ⟨call, u, next, hget, hadvance, rfl⟩

theorem Tracked.step (ht : Tracked s) (h : step debugEnabled tb s label = some t) :
    Tracked t := by
  cases label with
  | updateContext2LocalSite ctxElem correlator =>
    obtain rfl := Option.some.inj h
    exact ht.started (fun _ => not_false)
  | deleteEntity eid =>
    obtain rfl := Option.some.inj h
    exact ht.started (fun _ => not_false)
  | run i =>
    obtain ⟨call, u, next, hget, hadvance, rfl⟩ := run_cases h
    exact tracked_advance ht hget hadvance

theorem safe_step_iff (ht : Tracked s) (hs : Safe s)
    (h : step debugEnabled tb s label = some t) :
    NotDeleted debugEnabled tb s label ↔ Safe t := by
  cases label with
  | updateContext2LocalSite ctxElem correlator =>
    obtain rfl := Option.some.inj h
    exact iff_of_true trivial (hs.started rfl)
  | deleteEntity eid =>
    obtain rfl := Option.some.inj h
    exact iff_of_true trivial (hs.started rfl)
  | run i =>
    obtain ⟨call, u, next, hget, hadvance, rfl⟩ := run_cases h
    rw [safe_advance_iff hs hget hadvance, ← readsStored_iff ht (List.mem_of_getElem? hget)]
    constructor
    · exact fun hall => hall call hget
    · intro hcall other hother
      obtain rfl := Option.some.inj (hget.symm.trans hother)
      exact hcall

theorem tracked_initial (entities : Entities) : Tracked (.initial entities) :=
  ⟨by simp [System.initial], by simp [System.initial], by simp [System.initial]⟩

theorem safe_initial (entities : Entities) : Safe (.initial entities) := ⟨rfl, rfl, rfl⟩

end

theorem updates_safe_iff (debugEnabled : Bool) (tb : ThinBroker) (entities : Entities)
    (labels : List Label) (u : System)
    (hrun : exec (step debugEnabled tb) (.initial entities) labels = some u) :
    Always (step debugEnabled tb) Safe (.initial entities) labels ↔
      Meets (step debugEnabled tb) (NotDeleted debugEnabled tb) (.initial entities) labels :=
  always_iff_meets (I := fun _ s => Tracked s ∧ Safe s) hrun
    ⟨tracked_initial entities, safe_initial entities⟩ (safe_initial entities)
    (fun _ _ _ _ _ h hc ht => ⟨h.1.step ht, (safe_step_iff h.1 h.2 ht).mp hc⟩)
    (fun _ _ _ _ _ h ht => safe_step_iff h.1 h.2 ht)

def watchedRoom : ThinBroker :=
  { newBroker with
    subscriptions := GoMap.set ∅ "s1" .zero
    entityId2Subcriptions := GoMap.set ∅ "r1" ["s1"] }

def roomUpdate : ContextElement := ⟨⟨"Room", false, "r1"⟩, "", [], []⟩

-- the entity goes between the store of its update and the read for its subscriber
def deletedBeforeNotify : List Label :=
  [.updateContext2LocalSite roomUpdate "", .run 0, .run 0, .run 0, .deleteEntity "r1", .run 1,
    .run 0, .run 0]

theorem deletedBeforeNotify_not_met :
    ¬ Meets (step false watchedRoom) (NotDeleted false watchedRoom) (.initial ∅)
      deletedBeforeNotify := by
  intro hm
  have halways := (updates_safe_iff false watchedRoom ∅ deletedBeforeNotify _ rfl).mpr hm
  exact absurd (halways _ _ (List.prefix_refl _) rfl).nilDereferences (by decide)

theorem deleted_entity_dereferenced :
    ¬ ∀ (debugEnabled : Bool) (tb : ThinBroker) (entities : Entities) (labels : List Label)
      (u : System), exec (step debugEnabled tb) (.initial entities) labels = some u →
      Always (step debugEnabled tb) Safe (.initial entities) labels := by
  intro h
  have hsafe := h false watchedRoom ∅ deletedBeforeNotify _ rfl _ _ (List.prefix_refl _) rfl
  exact absurd hsafe.nilDereferences (by decide)

end FogFlow.Broker.ConcurrentUpdates
