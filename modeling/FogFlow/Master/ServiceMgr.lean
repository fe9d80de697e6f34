import FogFlow.Master.TaskIntent
import FogFlow.Master.Workload

namespace FogFlow.Master

open Ngsi Datamodel Loop Execution IntentHandling

namespace ServiceMgr

-- beside the maps of the two managers: the calls made for each flow since it was published, those
-- of the flows that have been replaced or removed, and the subscriptions with their intents
structure System where
  tMgr : TaskMgr
  serviceIntentMap : GoMap ServiceIntent
  service2TaskMap : GoMap (List TaskIntent)
  fogFlowsLocked : Bool
  fault : Option Fault
  calls : GoMap (List Command)
  ended : List (List Command)
  issued : List (String × String)
  unsubscribed : List String

def start : System := ⟨⟨∅, ∅⟩, ∅, ∅, false, none, ∅, [], [], []⟩

inductive Label where
  | handle (sIntent : ServiceIntent) (topology : Option Topology) (subIDs : Nat → Nat → String)
      (rank : String → Nat)
  | notify (e : Event)

def newTaskIntent (serviceIntent : ServiceIntent) (serviceIntentID : String) (task : Task) :
    TaskIntent :=
  ⟨serviceIntent.geoScope, serviceIntent.priority, serviceIntent.topologyName, task,
    serviceIntentID⟩

-- the streams with the answers of discovery, without those whose subscription failed
def granted (task : Task) (subIDs : Nat → String) : List (InputStreamConfig × String) :=
  (task.inputStreams.zipIdx.map (fun stream => (stream.1, subIDs stream.2))).filter
    (fun grant => grant.2 != "")

def subscribed (taskIntent : TaskIntent) (grants : List (InputStreamConfig × String)) : FogFlow :=
  grants.foldl (fun fogflow grant => fogflow.putSubscription grant.2 ⟨grant.1, grant.2, ∅⟩)
    (.init taskIntent)

def linkAll (subID2FogFunc : GoMap String) (fID : String)
    (grants : List (InputStreamConfig × String)) : GoMap String :=
  grants.foldl (fun subID2FogFunc grant => subID2FogFunc.set grant.2 fID) subID2FogFunc

-- the calls of the flow that is there now, if there is one
def openCalls (s : System) (fID : String) : List (List Command) :=
  (s.tMgr.fogFlows.get fID).toList.map (fun _ => s.calls.slice fID)

def handleTaskIntent (id : String) (s : System) (task : TaskIntent × (Nat → String)) : System :=
  let taskIntent := task.1
  let grants := granted taskIntent.taskObject task.2
  { s with
    tMgr := {
      fogFlows := s.tMgr.fogFlows.set (fID taskIntent) (subscribed taskIntent grants)
      subID2FogFunc := linkAll s.tMgr.subID2FogFunc (fID taskIntent) grants }
    calls := s.calls.set (fID taskIntent) []
    ended := openCalls s (fID taskIntent) ++ s.ended
    issued := grants.map (fun grant => (grant.2, id)) ++ s.issued }

def handleTaskIntents (s : System) (sIntent : ServiceIntent) (serviceIntentID : String)
    (tasks : List Task) (subIDs : Nat → Nat → String) : System :=
  let listTaskIntent := tasks.map (newTaskIntent sIntent serviceIntentID)
  let s := (listTaskIntent.zipIdx.map (fun task => (task.1, subIDs task.2))).foldl
    (handleTaskIntent sIntent.id) s
  { s with
    service2TaskMap := s.service2TaskMap.set sIntent.id listTaskIntent
    serviceIntentMap := s.serviceIntentMap.set sIntent.id sIntent }

def createNewServiceIntent (s : System) (sIntent : ServiceIntent) (topology : Option Topology)
    (subIDs : Nat → Nat → String) : System :=
  match topology with
  | none => s
  | some topology => handleTaskIntents s sIntent sIntent.id topology.tasks subIDs

-- unlike a creation, an update does not name the service intent in the task intents
def updateExistingServiceIntent (s : System) (sIntent : ServiceIntent)
    (topology : Option Topology) (subIDs : Nat → Nat → String) : System :=
  match topology with
  | none => s
  | some topology => handleTaskIntents s sIntent "" topology.tasks subIDs

def handleServiceIntent (s : System) (sIntent : ServiceIntent) (topology : Option Topology)
    (subIDs : Nat → Nat → String) : System :=
  if (s.serviceIntentMap.get sIntent.id).isSome then
    updateExistingServiceIntent s sIntent topology subIDs
  else createNewServiceIntent s sIntent topology subIDs

def sidList (rank : String → Nat) (subID2FogFunc : GoMap String) (fID : String) : List String :=
  ((subID2FogFunc.range rank).filter (fun e => e.2 == fID)).map (fun e => e.1)

-- fogFlows_lock is released at the end of the function, which a nil flow keeps it from reaching
def removeTaskIntent (rank : String → Nat) (s : System) (taskIntent : TaskIntent) : System :=
  let s := { s with
    unsubscribed := s.unsubscribed ++ sidList rank s.tMgr.subID2FogFunc (fID taskIntent)
    fogFlowsLocked := true }
  match s.tMgr.fogFlows.get (fID taskIntent) with
  | none => { s with fault := some .nilDereference }
  | some fogflow =>
      { s with
        tMgr := { s.tMgr with fogFlows := s.tMgr.fogFlows.delete (fID taskIntent) }
        calls := s.calls.delete (fID taskIntent)
        ended := (s.calls.slice (fID taskIntent) ++ terminateAll rank fogflow) :: s.ended
        fogFlowsLocked := false }

def removeTaskIntents (rank : String → Nat) (s : System) (listTaskIntent : List TaskIntent) :
    System :=
  listTaskIntent.foldl (fun s taskIntent =>
    if s.fault.isSome then s else removeTaskIntent rank s taskIntent) s

def removeServiceIntent (rank : String → Nat) (s : System) (id : String) : System :=
  let s := removeTaskIntents rank s (s.service2TaskMap.slice id)
  if s.fault.isSome then s
  else { s with
    service2TaskMap := s.service2TaskMap.delete id
    serviceIntentMap := s.serviceIntentMap.delete id }

def handleServiceIntentUpdate (s : System) (sIntent : ServiceIntent) (topology : Option Topology)
    (subIDs : Nat → Nat → String) (rank : String → Nat) : System :=
  if sIntent.action = "DELETE" then removeServiceIntent rank s sIntent.id
  else handleServiceIntent s sIntent topology subIDs

def notify (marshal : GroupValue → String) (s : System) (e : Event) : Option System :=
  match s.tMgr.subID2FogFunc.get e.subID with
  | none => some s
  | some funcName =>
      match s.tMgr.fogFlows.get funcName with
      | none => some s
      | some fogflow =>
          match handleUpdate marshal fogflow e with
          | .error _ => none
          | .ok result => some { s with
              tMgr := { s.tMgr with fogFlows := s.tMgr.fogFlows.set funcName result.1 }
              calls := s.calls.set funcName (s.calls.slice funcName ++ result.2) }

def answers (tasks : List Task) (subIDs : Nat → Nat → String) : List String :=
  tasks.zipIdx.flatMap (fun task => (granted task.1 (subIDs task.2)).map Prod.snd)

-- the subscriptions that the message leads to
def answered (sIntent : ServiceIntent) (topology : Option Topology)
    (subIDs : Nat → Nat → String) : List String :=
  if sIntent.action = "DELETE" then []
  else topology.toList.flatMap (fun t => answers t.tasks subIDs)

-- discovery takes a new uuid for every subscription
def areNew (s : System) (subIDs : List String) : Bool :=
  subIDs.Nodup && subIDs.all (fun subID => !(s.issued.map Prod.fst).contains subID)

-- a fault ends the master, so the run has no further step
def step (marshal : GroupValue → String) (s : System) : Label → Option System
  | .handle sIntent topology subIDs rank =>
      if s.fault = none ∧ areNew s (answered sIntent topology subIDs) then
        some (handleServiceIntentUpdate s sIntent topology subIDs rank)
      else none
  | .notify e => if s.fault = none then notify marshal s e else none

section Maps

theorem get_linkAll (subID2FogFunc : GoMap String) (f : String)
    (grants : List (InputStreamConfig × String)) (k : String) :
    (linkAll subID2FogFunc f grants).get k =
      if k ∈ grants.map Prod.snd then some f else subID2FogFunc.get k := by
  induction grants generalizing subID2FogFunc with
  | nil => rfl
  | cons grant grants ih =>
    have hcons : linkAll subID2FogFunc f (grant :: grants) =
        linkAll (subID2FogFunc.set grant.2 f) f grants := rfl
    rw [hcons, ih, GoMap.get_set]
    by_cases hin : k ∈ grants.map Prod.snd
    · simp [hin]
    · by_cases hk : k = grant.2
      · simp [hk]
      · simp [hin, hk]

theorem subscribed_intent (taskIntent : TaskIntent) (grants : List (InputStreamConfig × String)) :
    (subscribed taskIntent grants).intent = taskIntent :=
  List.foldlRecOn (motive := fun flow : FogFlow => flow.intent = taskIntent) grants _ rfl
    (fun _ h _ _ => h)

theorem established_subscribed (taskIntent : TaskIntent)
    (grants : List (InputStreamConfig × String)) : Established (subscribed taskIntent grants) := by
  refine List.foldlRecOn (motive := Established) grants _ ?_ ?_
  · exact ⟨rfl, rfl, rfl, by simp [FogFlow.init]⟩
  · intro flow h grant _
    refine ⟨h.uniqueKeys, h.executionPlan, h.deploymentPlan, fun subID sub hsub => ?_⟩
    simp only [FogFlow.putSubscription, GoMap.get_set] at hsub
    split_ifs at hsub
    · rw [← Option.some.inj hsub]
    · exact h.nothingReceived subID sub hsub

theorem get_subscribed (taskIntent : TaskIntent) (grants : List (InputStreamConfig × String))
    (k : String) :
    (subscribed taskIntent grants).subscriptions.get k ≠ none ↔ k ∈ grants.map Prod.snd := by
  induction grants using List.reverseRecOn with
  | nil => simp [subscribed, FogFlow.init]
  | append_singleton grants grant ih =>
    have hlast : subscribed taskIntent (grants ++ [grant]) =
        (subscribed taskIntent grants).putSubscription grant.2 ⟨grant.1, grant.2, ∅⟩ := by
      rw [subscribed, List.foldl_append]
      rfl
    rw [hlast, FogFlow.putSubscription, GoMap.get_set]
    by_cases hk : k = grant.2
    · simp [hk]
    · rw [if_neg hk, ih]
      simp [hk]

theorem mem_sidList {rank : String → Nat} {subID2FogFunc : GoMap String} {f k : String} :
    k ∈ sidList rank subID2FogFunc f ↔ subID2FogFunc.get k = some f := by
  simp only [sidList, List.mem_map, List.mem_filter, beq_iff_eq]
  constructor
  · rintro ⟨⟨j, g⟩, ⟨hin, rfl⟩, rfl⟩
    exact GoMap.mem_range.mp hin
  · exact fun h => ⟨⟨k, f⟩, ⟨GoMap.mem_range.mpr h, rfl⟩, rfl⟩

end Maps

variable {marshal : GroupValue → String} {s t : System} {rank : String → Nat}

theorem fault_removeTaskIntent {task : TaskIntent} (h : s.tMgr.fogFlows.get (fID task) = none) :
    (removeTaskIntent rank s task).fault = some .nilDereference := by
  simp [removeTaskIntent, h]

theorem removeTaskIntent_eq (rank : String → Nat) {task : TaskIntent} {flow : FogFlow}
    (h : s.tMgr.fogFlows.get (fID task) = some flow) :
    removeTaskIntent rank s task = { s with
      tMgr := { s.tMgr with fogFlows := s.tMgr.fogFlows.delete (fID task) }
      calls := s.calls.delete (fID task)
      ended := (s.calls.slice (fID task) ++ terminateAll rank flow) :: s.ended
      unsubscribed := s.unsubscribed ++ sidList rank s.tMgr.subID2FogFunc (fID task)
      fogFlowsLocked := false } := by
  simp [removeTaskIntent, h]

inductive Notified (marshal : GroupValue → String) (s : System) (e : Event) : System → Prop where
  | unlinked : s.tMgr.subID2FogFunc.get e.subID = none → Notified marshal s e s
  | removed (funcName : String) : s.tMgr.subID2FogFunc.get e.subID = some funcName →
      s.tMgr.fogFlows.get funcName = none → Notified marshal s e s
  | applied (funcName : String) (flow : FogFlow) (result : FogFlow × List Command) :
      s.tMgr.subID2FogFunc.get e.subID = some funcName →
      s.tMgr.fogFlows.get funcName = some flow → handleUpdate marshal flow e = .ok result →
      Notified marshal s e { s with
        tMgr := { s.tMgr with fogFlows := s.tMgr.fogFlows.set funcName result.1 }
        calls := s.calls.set funcName (s.calls.slice funcName ++ result.2) }

theorem notify_cases {e : Event} (h : notify marshal s e = some t) : Notified marshal s e t := by
  cases hfunc : s.tMgr.subID2FogFunc.get e.subID with
  | none =>
    simp only [notify, hfunc, Option.some.injEq] at h
    exact h ▸ .unlinked hfunc
  | some funcName =>
  cases hflow : s.tMgr.fogFlows.get funcName with
  | none =>
    simp only [notify, hfunc, hflow, Option.some.injEq] at h
    exact h ▸ .removed funcName hfunc hflow
  | some flow =>
  cases hupdate : handleUpdate marshal flow e with
  | error fault => simp [notify, hfunc, hflow, hupdate] at h
  | ok result =>
    simp only [notify, hfunc, hflow, hupdate, Option.some.injEq] at h
    exact h ▸ .applied funcName flow result hfunc hflow hupdate

theorem step_of_handleUpdate {flow : FogFlow} {e : Event} {result : FogFlow × List Command}
    (h : handleUpdate marshal flow e = .ok result) :
    Master.step marshal flow e = some result.1 := by
  simp [Master.step, h, Except.toOption]

theorem removeTaskIntents_of_fault (h : s.fault ≠ none) (list : List TaskIntent) :
    removeTaskIntents rank s list = s := by
  refine List.foldlRecOn (motive := fun r => r = s) list _ rfl (fun r hr task _ => ?_)
  rw [hr, if_pos (Option.isSome_iff_ne_none.mpr h)]

theorem removeTaskIntents_cons (hs : s.fault = none) (task : TaskIntent) (list : List TaskIntent) :
    removeTaskIntents rank s (task :: list) =
      removeTaskIntents rank (removeTaskIntent rank s task) list := by
  simp [removeTaskIntents, hs]

theorem frame_handleTaskIntent (id : String) (s : System)
    (tasks : List (TaskIntent × (Nat → String))) :
    (tasks.foldl (handleTaskIntent id) s).service2TaskMap = s.service2TaskMap ∧
      (tasks.foldl (handleTaskIntent id) s).serviceIntentMap = s.serviceIntentMap ∧
      (tasks.foldl (handleTaskIntent id) s).fault = s.fault ∧
      (tasks.foldl (handleTaskIntent id) s).fogFlowsLocked = s.fogFlowsLocked :=
  List.foldlRecOn (motive := fun r : System => r.service2TaskMap = s.service2TaskMap ∧
    r.serviceIntentMap = s.serviceIntentMap ∧ r.fault = s.fault ∧
      r.fogFlowsLocked = s.fogFlowsLocked) tasks _ ⟨rfl, rfl, rfl, rfl⟩ (fun _ hr _ _ => hr)

theorem maps_removeTaskIntents (rank : String → Nat) (list : List TaskIntent) :
    (removeTaskIntents rank s list).service2TaskMap = s.service2TaskMap ∧
      (removeTaskIntents rank s list).serviceIntentMap = s.serviceIntentMap := by
  refine List.foldlRecOn (motive := fun r : System => r.service2TaskMap = s.service2TaskMap ∧
    r.serviceIntentMap = s.serviceIntentMap) list _ ⟨rfl, rfl⟩ (fun r hr task _ => ?_)
  split_ifs
  · exact hr
  · cases hflow : r.tMgr.fogFlows.get (fID task) with
    | none => simpa [removeTaskIntent, hflow] using hr
    | some flow => simpa [removeTaskIntent_eq rank hflow] using hr

theorem removeServiceIntent_eq {id : String}
    (hdone : (removeTaskIntents rank s (s.service2TaskMap.slice id)).fault = none) :
    removeServiceIntent rank s id =
      { removeTaskIntents rank s (s.service2TaskMap.slice id) with
        service2TaskMap := s.service2TaskMap.delete id
        serviceIntentMap := s.serviceIntentMap.delete id } := by
  simp [removeServiceIntent, hdone, maps_removeTaskIntents]

theorem fault_of_step {label : Label} (hs : step marshal s label = some t) : s.fault = none := by
  cases label <;> simp only [step] at hs <;> split_ifs at hs with hready
  · exact hready.1
  · exact hready

theorem issued_handleTaskIntent (id : String) (s : System) (task : TaskIntent × (Nat → String)) :
    (handleTaskIntent id s task).issued.map Prod.fst =
      (granted task.1.taskObject task.2).map Prod.snd ++ s.issued.map Prod.fst := by
  simp [handleTaskIntent, Function.comp_def]

-- the answers of discovery are new
structure New (s : System) (grants : List (InputStreamConfig × String)) : Prop where
  nodup : (grants.map Prod.snd).Nodup
  unused : ∀ subID ∈ grants.map Prod.snd, subID ∉ s.issued.map Prod.fst

theorem New.head {task : TaskIntent × (Nat → String)}
    {tasks : List (TaskIntent × (Nat → String))}
    (h : New s ((task :: tasks).flatMap (fun task => granted task.1.taskObject task.2))) :
    New s (granted task.1.taskObject task.2) := by
  obtain ⟨hnodup, hunused⟩ := h
  rw [List.flatMap_cons, List.map_append] at hnodup hunused
  exact ⟨(List.nodup_append.mp hnodup).1, fun subID hin =>
    hunused subID (List.mem_append_left _ hin)⟩

theorem New.tail (id : String) {task : TaskIntent × (Nat → String)}
    {tasks : List (TaskIntent × (Nat → String))}
    (h : New s ((task :: tasks).flatMap (fun task => granted task.1.taskObject task.2))) :
    New (handleTaskIntent id s task)
      (tasks.flatMap (fun task => granted task.1.taskObject task.2)) := by
  obtain ⟨hnodup, hunused⟩ := h
  rw [List.flatMap_cons, List.map_append] at hnodup hunused
  refine ⟨(List.nodup_append.mp hnodup).2.1, fun subID hin hissued => ?_⟩
  rw [issued_handleTaskIntent, List.mem_append] at hissued
  rcases hissued with hgrant | hold
  · exact (List.nodup_append.mp hnodup).2.2 subID hgrant subID hin rfl
  · exact hunused subID (List.mem_append_right _ hin) hold

theorem granted_newTaskIntents (sIntent : ServiceIntent) (serviceIntentID : String)
    (tasks : List Task) (subIDs : Nat → Nat → String) :
    (((tasks.map (newTaskIntent sIntent serviceIntentID)).zipIdx.map
      (fun task => (task.1, subIDs task.2))).flatMap
        (fun task => granted task.1.taskObject task.2)).map Prod.snd = answers tasks subIDs := by
  rw [List.zipIdx_map, List.map_map, List.flatMap_map, List.map_flatMap]
  rfl

theorem new_of_areNew (serviceIntentID : String) {sIntent : ServiceIntent} {topology : Topology}
    {subIDs : Nat → Nat → String} (hadd : sIntent.action ≠ "DELETE")
    (hnew : areNew s (answered sIntent (some topology) subIDs) = true) :
    New s (((topology.tasks.map (newTaskIntent sIntent serviceIntentID)).zipIdx.map
      (fun task => (task.1, subIDs task.2))).flatMap
        (fun task => granted task.1.taskObject task.2)) := by
  rw [areNew, answered, if_neg hadd, Option.toList_some, List.flatMap_singleton,
    Bool.and_eq_true, decide_eq_true_eq, List.all_eq_true] at hnew
  constructor
  · rw [granted_newTaskIntents]
    exact hnew.1
  · rw [granted_newTaskIntents]
    intro subID hin
    simpa using hnew.2 subID hin

section Sections

variable {alone : IntentHandling.System}

def accepted (answers : List (InputStreamConfig × String)) : List (InputStreamConfig × String) :=
  answers.filter (fun grant => grant.2 != "")

def sections (grant : InputStreamConfig × String) : List IntentHandling.Label :=
  if grant.2 = "" then [.subscribe grant.2] else [.subscribe grant.2, .record]

def recordAll (alone : IntentHandling.System) (grants : List (InputStreamConfig × String)) :
    IntentHandling.System :=
  { alone with
    fogflow := grants.foldl (fun fogflow grant =>
      fogflow.putSubscription grant.2 ⟨grant.1, grant.2, ∅⟩) alone.fogflow
    tMgr := { alone.tMgr with
      subID2FogFunc := linkAll alone.tMgr.subID2FogFunc (fID alone.fogflow.intent) grants }
    remaining := []
    issued := (grants.map Prod.snd).reverse ++ alone.issued }

-- no map of the task manager has the subscription
def Unknown (tMgr : TaskMgr) (subID : String) : Prop :=
  tMgr.subID2FogFunc.get subID = none ∧
    ∀ flow ∈ tMgr.fogFlows.values, flow.subscriptions.get subID = none

theorem isNew_of_unknown {subID : String} (h : Unknown alone.tMgr subID)
    (hissued : subID ∉ alone.issued) : isNew alone subID = true := by
  simp only [isNew, Bool.and_eq_true, Bool.not_eq_true', List.all_eq_true, beq_iff_eq,
    Option.isNone_iff_eq_none, List.contains_eq_mem, decide_eq_false_iff_not]
  exact ⟨⟨hissued, h.1⟩, h.2⟩

theorem exec_sections (answers : List (InputStreamConfig × String))
    (hanswered : alone.answered = none) (hremaining : alone.remaining = answers.map Prod.fst)
    (hnew : ∀ subID ∈ (accepted answers).map Prod.snd,
      Unknown alone.tMgr subID ∧ subID ∉ alone.issued)
    (hnodup : ((accepted answers).map Prod.snd).Nodup) :
    exec (IntentHandling.step marshal) alone (answers.flatMap sections) =
      some (recordAll alone (accepted answers)) := by
  induction answers generalizing alone with
  | nil =>
    simp only [List.map_nil] at hremaining
    simp [recordAll, accepted, linkAll, ← hremaining]
  | cons answer answers ih =>
    rw [List.flatMap_cons, exec_append]
    by_cases hempty : answer.2 = ""
    · have hfilter : accepted (answer :: answers) = accepted answers := by
        simp [accepted, hempty]
      have hstep : exec (IntentHandling.step marshal) alone (sections answer) =
          some { alone with remaining := answers.map Prod.fst } := by
        simp [sections, hempty, exec, IntentHandling.step, subscribe, hanswered, hremaining]
      rw [hfilter] at hnew hnodup ⊢
      rw [hstep]
      exact ih hanswered rfl hnew hnodup
    · have hfilter : accepted (answer :: answers) = answer :: accepted answers := by
        simp [accepted, hempty]
      rw [hfilter] at hnew hnodup ⊢
      obtain ⟨hnotin, hrest⟩ := List.nodup_cons.mp hnodup
      have hfresh : isNew alone answer.2 = true :=
        isNew_of_unknown (hnew _ List.mem_cons_self).1 (hnew _ List.mem_cons_self).2
      have hstep : exec (IntentHandling.step marshal) alone (sections answer) =
          some { recordAll alone [answer] with remaining := answers.map Prod.fst } := by
        simp [sections, hempty, exec, IntentHandling.step, subscribe, record, hanswered,
          hremaining, hfresh, recordAll, linkAll]
      rw [hstep]
      refine (@ih { recordAll alone [answer] with remaining := answers.map Prod.fst } hanswered rfl
        (fun subID hin => ?_) hrest).trans ?_
      · have hne : subID ≠ answer.2 := fun heq => hnotin (heq ▸ hin)
        obtain ⟨hunknown, hissued⟩ := hnew subID (List.mem_cons_of_mem _ hin)
        refine ⟨⟨?_, hunknown.2⟩, by simp [recordAll, hne, hissued]⟩
        simp [recordAll, linkAll, GoMap.get_set, hne, hunknown.1]
      · simp [recordAll, linkAll, FogFlow.putSubscription]

-- the maps of the task manager have no subscription that discovery has not answered with
structure Recorded (s : System) : Prop where
  linked : ∀ subID, s.tMgr.subID2FogFunc.get subID ≠ none → subID ∈ s.issued.map Prod.fst
  known : ∀ f flow, s.tMgr.fogFlows.get f = some flow → ∀ subID,
    flow.subscriptions.get subID ≠ none → subID ∈ s.issued.map Prod.fst

theorem Recorded.unknown {subID : String} (h : Recorded s)
    (hunused : subID ∉ s.issued.map Prod.fst) : Unknown s.tMgr subID := by
  refine ⟨not_ne_iff.mp (fun hlink => hunused (h.linked subID hlink)), fun flow hflow => ?_⟩
  obtain ⟨f, hf⟩ := GoMap.mem_values.mp hflow
  exact not_ne_iff.mp (fun hknows => hunused (h.known f flow hf subID hknows))

theorem recorded_handleTaskIntent (id : String) (task : TaskIntent × (Nat → String))
    (h : Recorded s) : Recorded (handleTaskIntent id s task) := by
  refine ⟨fun subID hlink => ?_, fun f flow hf subID hknows => ?_⟩
  · rw [issued_handleTaskIntent, List.mem_append]
    simp only [handleTaskIntent, get_linkAll] at hlink
    split_ifs at hlink with hin
    · exact Or.inl hin
    · exact Or.inr (h.linked subID hlink)
  · rw [issued_handleTaskIntent, List.mem_append]
    simp only [handleTaskIntent, GoMap.get_set] at hf
    split_ifs at hf
    · obtain rfl := Option.some.inj hf
      exact Or.inl ((get_subscribed _ _ _).mp hknows)
    · exact Or.inr (h.known f flow hf subID hknows)

theorem recorded_removeTaskIntents (rank : String → Nat) (list : List TaskIntent) (h : Recorded s) :
    Recorded (removeTaskIntents rank s list) := by
  refine List.foldlRecOn (motive := Recorded) list _ h (fun r hr task _ => ?_)
  split_ifs
  · exact hr
  · cases hflow : r.tMgr.fogFlows.get (fID task) with
    | none => simpa [removeTaskIntent, hflow] using ⟨hr.linked, hr.known⟩
    | some flow =>
      rw [removeTaskIntent_eq rank hflow]
      exact ⟨hr.linked, fun f other hf => hr.known f other (GoMap.get_of_get_delete hf).2⟩

theorem recorded_notify {e : Event} (h : Recorded s) (hs : notify marshal s e = some t) :
    Recorded t := by
  cases notify_cases hs with
  | unlinked _ => exact h
  | removed _ _ _ => exact h
  | applied f flow result hfunc hflow hupdate =>
    have hsubs := subscriptions_step (step_of_handleUpdate hupdate)
    refine ⟨h.linked, fun g other hg subID hknows => ?_⟩
    simp only [GoMap.get_set] at hg
    split_ifs at hg
    · obtain rfl := Option.some.inj hg
      rw [ne_eq, hsubs] at hknows
      exact h.known f flow hflow subID hknows
    · exact h.known g other hg subID hknows

theorem recorded_step {label : Label} (h : Recorded s) (hs : step marshal s label = some t) :
    Recorded t := by
  cases label with
  | notify e =>
    simp only [step] at hs
    split_ifs at hs
    exact recorded_notify h hs
  | handle sIntent topology subIDs rank =>
    simp only [step] at hs
    split_ifs at hs
    obtain rfl := Option.some.inj hs
    have hcreated (serviceIntentID : String) (tasks : List Task) :
        Recorded (handleTaskIntents s sIntent serviceIntentID tasks subIDs) := by
      have hloop := List.foldlRecOn (motive := Recorded)
        (((tasks.map (newTaskIntent sIntent serviceIntentID)).zipIdx).map
          (fun task => (task.1, subIDs task.2))) (handleTaskIntent sIntent.id) h
        (fun r hr task _ => recorded_handleTaskIntent sIntent.id task hr)
      exact ⟨hloop.linked, hloop.known⟩
    unfold handleServiceIntentUpdate
    split_ifs
    · have hloop := recorded_removeTaskIntents rank (s.service2TaskMap.slice sIntent.id) h
      simp only [removeServiceIntent]
      split_ifs
      · exact hloop
      · exact ⟨hloop.linked, hloop.known⟩
    · unfold handleServiceIntent updateExistingServiceIntent createNewServiceIntent
      cases topology with
      | none => simpa using h
      | some topology =>
        split_ifs
        · exact hcreated "" topology.tasks
        · exact hcreated sIntent.id topology.tasks

theorem recorded_run {labels : List Label} (hs : exec (step marshal) start labels = some s) :
    Recorded s := by
  refine exec_invariant (P := Recorded) hs ?_ (fun _ _ _ h ht => recorded_step h ht)
  constructor <;> simp [start]

-- one task after the other runs the sections of handleASynchronousTaskIntent by itself
inductive RunsAlone (marshal : GroupValue → String) :
    TaskMgr → List (TaskIntent × (Nat → String)) → TaskMgr → Prop where
  | nil (tMgr : TaskMgr) : RunsAlone marshal tMgr [] tMgr
  | cons {tMgr last : TaskMgr} (task : TaskIntent × (Nat → String))
      {tasks : List (TaskIntent × (Nat → String))} (labels : List IntentHandling.Label)
      (alone : IntentHandling.System) :
      exec (IntentHandling.step marshal) (IntentHandling.start tMgr task.1) labels = some alone →
      alone.published = true →
      alone.issued = ((granted task.1.taskObject task.2).map Prod.snd).reverse →
      RunsAlone marshal alone.tMgr tasks last → RunsAlone marshal tMgr (task :: tasks) last

theorem exec_handleTaskIntent (marshal : GroupValue → String) (id : String)
    (task : TaskIntent × (Nat → String)) (h : Recorded s)
    (hnew : New s (granted task.1.taskObject task.2)) :
    ∃ labels alone, exec (IntentHandling.step marshal) (IntentHandling.start s.tMgr task.1) labels =
        some alone ∧ alone.published = true ∧
      alone.issued = ((granted task.1.taskObject task.2).map Prod.snd).reverse ∧
      alone.tMgr = (handleTaskIntent id s task).tMgr := by
  let answers := task.1.taskObject.inputStreams.zipIdx.map
    (fun stream => (stream.1, task.2 stream.2))
  let first := IntentHandling.start s.tMgr task.1
  have hremaining : first.remaining = answers.map Prod.fst := by
    simp [first, answers, IntentHandling.start, Function.comp_def]
  have hrun : exec (IntentHandling.step marshal) first (answers.flatMap sections) =
      some (recordAll first (granted task.1.taskObject task.2)) :=
    exec_sections answers rfl hremaining
      (fun subID hin => ⟨h.unknown (hnew.unused subID hin), List.not_mem_nil⟩) hnew.nodup
  have hintent : fID (recordAll first (granted task.1.taskObject task.2)).fogflow.intent =
      fID task.1 := congrArg fID (subscribed_intent task.1 _)
  refine ⟨answers.flatMap sections ++ [.publish], _, exec_concat.mpr ⟨_, hrun, rfl⟩, rfl, ?_, ?_⟩
  · simp [recordAll, first, IntentHandling.start]
  · rw [hintent]
    rfl

-- so the loop over the tasks of a service intent is what IntentHandling does without interruption
theorem runsAlone_handleTaskIntents (id : String) (tasks : List (TaskIntent × (Nat → String)))
    (h : Recorded s)
    (hnew : New s (tasks.flatMap (fun task => granted task.1.taskObject task.2))) :
    RunsAlone marshal s.tMgr tasks (tasks.foldl (handleTaskIntent id) s).tMgr := by
  induction tasks generalizing s with
  | nil => exact .nil s.tMgr
  | cons task tasks ih =>
    obtain ⟨labels, alone, hrun, hpublished, hissued, htMgr⟩ :=
      exec_handleTaskIntent marshal id task h hnew.head
    refine .cons task labels alone hrun hpublished hissued ?_
    rw [htMgr]
    exact ih (recorded_handleTaskIntent id task h) (hnew.tail id)

theorem runsAlone_handle {labels : List Label} {sIntent : ServiceIntent} {topology : Topology}
    {subIDs : Nat → Nat → String} (hs : exec (step marshal) start labels = some s)
    (hadd : sIntent.action ≠ "DELETE")
    (ht : step marshal s (.handle sIntent (some topology) subIDs rank) = some t) :
    ∃ serviceIntentID, RunsAlone marshal s.tMgr
      ((topology.tasks.map (newTaskIntent sIntent serviceIntentID)).zipIdx.map
        (fun task => (task.1, subIDs task.2))) t.tMgr := by
  simp only [step] at ht
  split_ifs at ht with hready
  obtain rfl := Option.some.inj ht
  unfold handleServiceIntentUpdate handleServiceIntent
  rw [if_neg hadd]
  split_ifs
  · exact ⟨"", runsAlone_handleTaskIntents sIntent.id _ (recorded_run hs)
      (new_of_areNew "" hadd hready.2)⟩
  · exact ⟨sIntent.id, runsAlone_handleTaskIntents sIntent.id _ (recorded_run hs)
      (new_of_areNew sIntent.id hadd hready.2)⟩

end Sections

def exampleMessage (id topologyName action : String) : ServiceIntent :=
  ⟨id, ⟨"", .null⟩, ⟨false, 0⟩, topologyName, action⟩

def exampleTopology (name : String) : Topology :=
  ⟨name, [⟨"task", "operator", [exampleStream "Car" "EntityID"], []⟩]⟩

def add (id topologyName subID : String) : Label :=
  .handle (exampleMessage id topologyName "ADD") (some (exampleTopology topologyName))
    (fun _ _ => subID) (fun _ => 0)

def delete (id topologyName : String) : Label :=
  .handle (exampleMessage id topologyName "DELETE") none (fun _ _ => "") (fun _ => 0)

def carArrives (subID : String) : Label := .notify (exampleEvent subID .create "car1" "Car")

end ServiceMgr

end FogFlow.Master
