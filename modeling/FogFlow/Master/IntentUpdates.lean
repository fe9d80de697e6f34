import FogFlow.Master.ServiceMgr

namespace FogFlow.Master.ServiceMgr

open Ngsi Datamodel Execution IntentHandling Leases

variable {marshal : GroupValue → String} {s t : System} {rank : String → Nat}

-- every task that was deployed is terminated by a later call
def Terminated (calls : List Command) : Prop :=
  ∀ before taskInstance rest, calls = before ++ .deployTask taskInstance :: rest →
    .terminateTask taskInstance.id taskInstance.workerID ∈ rest

theorem terminated_of_running {calls : List Command} (h : running (opsOf calls) = []) :
    Terminated calls := by
  rintro before taskInstance rest rfl
  by_contra hnot
  have hops : opsOf (before ++ .deployTask taskInstance :: rest) =
      opsOf before ++ .assign taskInstance.id taskInstance.workerID :: opsOf rest :=
    opsOf_append before _
  have hin := mem_running_of_unreleased (opsOf before)
    (fun hrel => hnot (release_mem_opsOf.mp hrel))
  rw [← hops, h] at hin
  cases hin

structure CleanedUp (s : System) : Prop where
  terminated : ∀ calls ∈ s.ended ++ s.calls.values, Terminated calls
  cancelled : ∀ sub ∈ s.issued, sub.1 ∈ s.unsubscribed
  removed : ∀ f, s.tMgr.fogFlows.get f = none

def Idle (flow : FogFlow) : Prop := ∀ k, flow.executionPlan.get k = none

-- a new version finds no task running under its names and has all names of the present one
structure Replaceable (s : System) (sIntent : ServiceIntent) (tasks : List Task) : Prop where
  idle : ∀ task ∈ tasks, ∀ flow,
    s.tMgr.fogFlows.get (sIntent.topologyName ++ "." ++ task.name) = some flow → Idle flow
  named : ∀ old ∈ s.service2TaskMap.slice sIntent.id, ∃ task ∈ tasks,
    sIntent.topologyName ++ "." ++ task.name = fID old

def Met (marshal : GroupValue → String) (s : System) : Label → Prop
  | .handle sIntent topology _ _ => sIntent.action ≠ "DELETE" →
      ∀ t, topology = some t → Replaceable s sIntent t.tasks
  | .notify e => ∀ f flow, s.tMgr.subID2FogFunc.get e.subID = some f →
      s.tMgr.fogFlows.get f = some flow → Accountable marshal flow e

-- everything that still has to be cleaned up is under a name of the list
structure Kept (s : System) (listTaskIntent : List TaskIntent) : Prop where
  accounted : ∀ f flow, s.tMgr.fogFlows.get f = some flow →
    Accounted flow (opsOf (s.calls.slice f))
  named : ∀ f, s.tMgr.fogFlows.get f ≠ none → ∃ task ∈ listTaskIntent, fID task = f
  opened : ∀ f, s.tMgr.fogFlows.get f = none → s.calls.get f = none
  ended : ∀ calls ∈ s.ended, running (opsOf calls) = []
  linked : ∀ sub ∈ s.issued, sub.1 ∈ s.unsubscribed ∨
    ∃ task ∈ listTaskIntent, s.tMgr.subID2FogFunc.get sub.1 = some (fID task)

section Kept

variable {listTaskIntent rest : List TaskIntent} {task : TaskIntent}

theorem kept_start : Kept start [] := by
  constructor <;> simp [start]

theorem Kept.covered {more : List TaskIntent} (h : Kept s listTaskIntent)
    (hmore : ∀ old ∈ listTaskIntent, ∃ task ∈ more, fID task = fID old) : Kept s more := by
  refine ⟨h.accounted, fun f hf => ?_, h.opened, h.ended, fun sub hsub => ?_⟩
  · obtain ⟨old, hold, hname⟩ := h.named f hf
    obtain ⟨task, hin, hsame⟩ := hmore old hold
    exact ⟨task, hin, hsame.trans hname⟩
  · refine (h.linked sub hsub).imp_right (fun hopen => ?_)
    obtain ⟨old, hold, hlink⟩ := hopen
    obtain ⟨task, hin, hsame⟩ := hmore old hold
    exact ⟨task, hin, hsame ▸ hlink⟩

theorem Kept.congr (h : Kept s listTaskIntent) (htMgr : t.tMgr = s.tMgr)
    (hcalls : t.calls = s.calls) (hended : t.ended = s.ended) (hissued : t.issued = s.issued)
    (hunsubscribed : t.unsubscribed = s.unsubscribed) : Kept t listTaskIntent := by
  refine ⟨?_, ?_, ?_, ?_, ?_⟩
  · rw [htMgr, hcalls]
    exact h.accounted
  · rw [htMgr]
    exact h.named
  · rw [htMgr, hcalls]
    exact h.opened
  · rw [hended]
    exact h.ended
  · rw [hissued, hunsubscribed, htMgr]
    exact h.linked

theorem Kept.cleanedUp (h : Kept s []) : CleanedUp s := by
  have hremoved : ∀ f, s.tMgr.fogFlows.get f = none := by
    intro f
    by_contra hf
    obtain ⟨task, hin, -⟩ := h.named f hf
    cases hin
  refine ⟨fun calls hcalls => ?_, fun sub hsub => ?_, hremoved⟩
  · rcases List.mem_append.mp hcalls with hin | hin
    · exact terminated_of_running (h.ended calls hin)
    · obtain ⟨f, hf⟩ := GoMap.mem_values.mp hin
      simp [h.opened f (hremoved f)] at hf
  · rcases h.linked sub hsub with hdone | ⟨task, hin, -⟩
    · exact hdone
    · cases hin

theorem mem_openCalls {f : String} {calls : List Command} : calls ∈ openCalls s f ↔
    s.tMgr.fogFlows.get f ≠ none ∧ calls = s.calls.slice f := by
  unfold openCalls
  cases s.tMgr.fogFlows.get f with
  | none => simp
  | some flow => simp

theorem running_of_idle {flow : FogFlow} {ops : List (Op String String)} (h : Accounted flow ops)
    (hidle : Idle flow) : running ops = [] := by
  rw [List.eq_nil_iff_forall_not_mem]
  rintro ⟨id, w⟩ hrun
  obtain ⟨task, htask, -⟩ := assigned_eq_some_iff.mp ((h.tracks.live id w).mp hrun)
  rw [hidle] at htask
  cases htask

theorem kept_handleTaskIntent {id : String} {subIDs : Nat → String} (h : Kept s listTaskIntent)
    (hin : task ∈ listTaskIntent)
    (hidle : ∀ flow, s.tMgr.fogFlows.get (fID task) = some flow → Idle flow) :
    Kept (handleTaskIntent id s (task, subIDs)) listTaskIntent := by
  refine ⟨fun f flow hf => ?_, fun f hf => ?_, fun f hf => ?_, fun calls hcalls => ?_,
    fun sub hsub => ?_⟩
  · simp only [handleTaskIntent, GoMap.get_set] at hf
    simp only [handleTaskIntent, GoMap.slice_set]
    split_ifs at hf ⊢
    · rw [← Option.some.inj hf]
      exact accounted_established (established_subscribed task _)
    · exact h.accounted f flow hf
  · simp only [handleTaskIntent, GoMap.get_set] at hf
    split_ifs at hf with hname
    · exact ⟨task, hin, hname.symm⟩
    · exact h.named f hf
  · simp only [handleTaskIntent, GoMap.get_set] at hf ⊢
    split_ifs at hf ⊢
    exact h.opened f hf
  · rcases List.mem_append.mp hcalls with hopen | hended
    · obtain ⟨hflow, rfl⟩ := mem_openCalls.mp hopen
      obtain ⟨flow, hflow⟩ := Option.ne_none_iff_exists'.mp hflow
      exact running_of_idle (h.accounted _ flow hflow) (hidle flow hflow)
    · exact h.ended calls hended
  · simp only [handleTaskIntent, get_linkAll]
    rcases List.mem_append.mp hsub with hnew | hold
    · obtain ⟨grant, hgrant, rfl⟩ := List.mem_map.mp hnew
      refine Or.inr ⟨task, hin, if_pos (List.mem_map_of_mem hgrant)⟩
    · refine (h.linked sub hold).imp_right (fun hopen => ?_)
      obtain ⟨old, holdIn, hlink⟩ := hopen
      split_ifs
      · exact ⟨task, hin, rfl⟩
      · exact ⟨old, holdIn, hlink⟩

theorem kept_handleTaskIntents {sIntent : ServiceIntent} {serviceIntentID : String}
    {tasks : List Task} {subIDs : Nat → Nat → String}
    (h : Kept s (s.service2TaskMap.slice sIntent.id)) (hrep : Replaceable s sIntent tasks) :
    Kept (handleTaskIntents s sIntent serviceIntentID tasks subIDs)
      ((handleTaskIntents s sIntent serviceIntentID tasks subIDs).service2TaskMap.slice
        sIntent.id) := by
  let list := tasks.map (newTaskIntent sIntent serviceIntentID)
  have hcovered : Kept s list := by
    refine h.covered (fun old hold => ?_)
    obtain ⟨task, hin, hname⟩ := hrep.named old hold
    exact ⟨newTaskIntent sIntent serviceIntentID task, List.mem_map_of_mem hin, hname⟩
  have hidle : ∀ task ∈ list, ∀ flow, s.tMgr.fogFlows.get (fID task) = some flow → Idle flow := by
    intro taskIntent htaskIntent
    obtain ⟨task, hin, rfl⟩ := List.mem_map.mp htaskIntent
    exact hrep.idle task hin
  have hloop := List.foldlRecOn (motive := fun r : System => Kept r list ∧
      ∀ task ∈ list, ∀ flow, r.tMgr.fogFlows.get (fID task) = some flow → Idle flow)
    (list.zipIdx.map (fun task => (task.1, subIDs task.2))) (handleTaskIntent sIntent.id)
    ⟨hcovered, hidle⟩ (fun r hr task htask => by
      obtain ⟨⟨task, i⟩, hzip, rfl⟩ := List.mem_map.mp htask
      have hin : task ∈ list := (List.mem_zipIdx' hzip).2 ▸ List.getElem_mem _
      refine ⟨kept_handleTaskIntent hr.1 hin (hr.2 task hin), fun other hother flow hflow => ?_⟩
      simp only [handleTaskIntent, GoMap.get_set] at hflow
      split_ifs at hflow
      · rw [← Option.some.inj hflow, Idle, (established_subscribed task _).executionPlan]
        exact GoMap.get_empty
      · exact hr.2 other hother flow hflow)
  have hslice : (handleTaskIntents s sIntent serviceIntentID tasks subIDs).service2TaskMap.slice
      sIntent.id = list := by
    simp [handleTaskIntents, GoMap.slice_set, list]
  rw [hslice]
  exact hloop.1.congr rfl rfl rfl rfl rfl

theorem kept_notify {e : Event} (h : Kept s listTaskIntent) (hc : Met marshal s (.notify e))
    (hs : notify marshal s e = some t) : Kept t listTaskIntent := by
  cases notify_cases hs with
  | unlinked _ => exact h
  | removed _ _ _ => exact h
  | applied f flow result hfunc hflow hupdate =>
    refine ⟨fun g other hg => ?_, fun g hg => ?_, fun g hg => ?_, h.ended, h.linked⟩
    · simp only [GoMap.get_set] at hg
      simp only [GoMap.slice_set]
      split_ifs at hg ⊢
      · rw [← Option.some.inj hg, opsOf_append]
        exact accounted_event (h.accounted f flow hflow) (hc f flow hfunc hflow) hupdate
      · exact h.accounted g other hg
    · simp only [GoMap.get_set] at hg
      split_ifs at hg with heq
      · exact h.named g (by simp [heq, hflow])
      · exact h.named g hg
    · simp only [GoMap.get_set] at hg ⊢
      split_ifs at hg ⊢
      exact h.opened g hg

theorem kept_removeTaskIntent (h : Kept s (task :: rest))
    (hdone : (removeTaskIntent rank s task).fault = none) :
    Kept (removeTaskIntent rank s task) rest := by
  cases hflow : s.tMgr.fogFlows.get (fID task) with
  | none => simp [fault_removeTaskIntent hflow] at hdone
  | some flow =>
    rw [removeTaskIntent_eq rank hflow]
    refine ⟨fun f other hf => ?_, fun f hf => ?_, fun f hf => ?_, fun calls hcalls => ?_,
      fun sub hsub => ?_⟩
    · obtain ⟨hne, hf⟩ := GoMap.get_of_get_delete hf
      have hslice : (s.calls.delete (fID task)).slice f = s.calls.slice f := by
        simp [GoMap.slice, GoMap.get_delete, hne]
      simp only [hslice]
      exact h.accounted f other hf
    · obtain ⟨other, hf⟩ := Option.ne_none_iff_exists'.mp hf
      obtain ⟨hne, hf⟩ := GoMap.get_of_get_delete hf
      obtain ⟨old, hin, hname⟩ := h.named f (by simp [hf])
      rcases List.mem_cons.mp hin with rfl | hin
      · exact absurd hname.symm hne
      · exact ⟨old, hin, hname⟩
    · simp only [GoMap.get_delete] at hf ⊢
      split_ifs at hf ⊢
      · rfl
      · exact h.opened f hf
    · rcases List.mem_cons.mp hcalls with rfl | hended
      · rw [opsOf_append]
        exact running_terminateAll rank (h.accounted _ flow hflow)
      · exact h.ended calls hended
    · rcases h.linked sub hsub with hcancelled | ⟨old, hin, hlink⟩
      · exact Or.inl (List.mem_append_left _ hcancelled)
      · rcases List.mem_cons.mp hin with rfl | hin
        · exact Or.inl (List.mem_append_right _ (mem_sidList.mpr hlink))
        · exact Or.inr ⟨old, hin, hlink⟩

theorem kept_removeTaskIntents (hs : s.fault = none) (h : Kept s listTaskIntent)
    (hdone : (removeTaskIntents rank s listTaskIntent).fault = none) :
    Kept (removeTaskIntents rank s listTaskIntent) [] := by
  induction listTaskIntent generalizing s with
  | nil => exact h
  | cons task rest ih =>
    rw [removeTaskIntents_cons hs] at hdone ⊢
    have hfirst : (removeTaskIntent rank s task).fault = none := by
      by_contra hfault
      rw [removeTaskIntents_of_fault hfault] at hdone
      exact hfault hdone
    exact ih hfirst (kept_removeTaskIntent h hfirst) hdone

end Kept

-- the messages are those of one service intent
def Concerns (id : String) : Label → Prop
  | .handle sIntent _ _ _ => sIntent.id = id
  | .notify _ => True

theorem kept_removeServiceIntent {id : String} (hs : s.fault = none)
    (h : Kept s (s.service2TaskMap.slice id))
    (hdone : (removeServiceIntent rank s id).fault = none) :
    Kept (removeServiceIntent rank s id) [] ∧
      (removeServiceIntent rank s id).service2TaskMap.slice id = [] := by
  have hloop : (removeTaskIntents rank s (s.service2TaskMap.slice id)).fault = none := by
    by_contra hfault
    rw [removeServiceIntent, if_pos (Option.isSome_iff_ne_none.mpr hfault)] at hdone
    exact hfault hdone
  rw [removeServiceIntent_eq hloop]
  refine ⟨(kept_removeTaskIntents hs h hloop).congr rfl rfl rfl rfl rfl, ?_⟩
  simp [GoMap.slice, GoMap.get_delete]

theorem kept_step {id : String} {label : Label} (hid : Concerns id label)
    (h : Kept s (s.service2TaskMap.slice id)) (hc : Met marshal s label)
    (hs : step marshal s label = some t) (hdone : t.fault = none) :
    Kept t (t.service2TaskMap.slice id) := by
  cases label with
  | notify e =>
    simp only [step] at hs
    split_ifs at hs with hfault
    have hmap : t.service2TaskMap = s.service2TaskMap := by
      cases notify_cases hs <;> rfl
    rw [hmap]
    exact kept_notify h hc hs
  | handle sIntent topology subIDs rank =>
    obtain rfl : sIntent.id = id := hid
    simp only [step] at hs
    split_ifs at hs with hready
    obtain rfl := Option.some.inj hs
    unfold handleServiceIntentUpdate at hdone ⊢
    split_ifs at hdone ⊢ with hdelete
    · obtain ⟨hkept, hslice⟩ := kept_removeServiceIntent hready.1 h hdone
      rw [hslice]
      exact hkept
    · unfold handleServiceIntent createNewServiceIntent updateExistingServiceIntent
      cases topology with
      | none => split_ifs <;> exact h
      | some topology => split_ifs <;> exact kept_handleTaskIntents h (hc hdelete topology rfl)

theorem kept_run {id : String} {labels : List Label} (hid : ∀ label ∈ labels, Concerns id label)
    (hm : Meets (step marshal) (Met marshal) start labels)
    (hs : exec (step marshal) start labels = some s) (hdone : s.fault = none) :
    Kept s (s.service2TaskMap.slice id) := by
  refine exec_induction_of_meets (motive := fun _ (r : System) => r.fault = none →
    Kept r (r.service2TaskMap.slice id)) hm hs (fun _ => kept_start) ?_ hdone
  intro js label r t hp hr hkept hc ht hnone
  refine kept_step (hid label ?_) (hkept (fault_of_step ht)) hc ht hnone
  exact hp.subset (List.mem_append_right _ (List.mem_singleton_self label))

def UpdatesCleanUp (marshal : GroupValue → String) : Prop :=
  ∀ id labels sIntent topology subIDs rank s, (∀ label ∈ labels, Concerns id label) →
    sIntent.id = id → sIntent.action = "DELETE" →
    exec (step marshal) start (labels ++ [.handle sIntent topology subIDs rank]) = some s →
    s.fault = none → CleanedUp s

def updateRunning : List Label :=
  [add "intent" "topology" "sub1", carArrives "sub1", add "intent" "topology" "sub2"]

def onlyDeployed : List Command → Bool
  | [.deployTask _] => true
  | _ => false

def updateIdle : List Label :=
  [add "intent" "topology" "sub1", add "intent" "topology" "sub2", carArrives "sub2"]

def isMet (s : System) : Label → Bool
  | .handle sIntent topology _ _ => topology.all (fun t =>
      t.tasks.all (fun task =>
        (s.tMgr.fogFlows.get (sIntent.topologyName ++ "." ++ task.name)).all
          (fun flow => flow.executionPlan.entries.isEmpty)) &&
      (s.service2TaskMap.slice sIntent.id).all (fun old => t.tasks.any (fun task =>
        sIntent.topologyName ++ "." ++ task.name == fID old)))
  | .notify e => ((s.tMgr.subID2FogFunc.get e.subID).bind s.tMgr.fogFlows.get).all
      (fun flow => Workload.addCount flow e == some 1)

theorem met_of_isMet {label : Label} (h : isMet s label = true)
    (hw : ∀ e, label = .notify e → ∀ n locations, e.selectWorker n locations ≠ "") :
    Met exampleMarshal s label := by
  cases label with
  | handle sIntent topology subIDs rank =>
    rintro - t rfl
    obtain ⟨hidle, hnamed⟩ := Bool.and_eq_true_iff.mp h
    refine ⟨fun task hin flow hflow k => ?_, fun old hold => ?_⟩
    · have hempty := List.all_eq_true.mp hidle task hin
      rw [hflow, Option.all_some, List.isEmpty_iff] at hempty
      cases hget : flow.executionPlan.get k with
      | none => rfl
      | some planned => simpa [hempty] using GoMap.mem_entries.mpr hget
    · obtain ⟨task, hin, hname⟩ := List.any_eq_true.mp (List.all_eq_true.mp hnamed old hold)
      exact ⟨task, hin, beq_iff_eq.mp hname⟩
  | notify e =>
    intro f flow hfunc hflow
    rw [isMet, hfunc, Option.bind_some, hflow, Option.all_some, beq_iff_eq] at h
    exact Workload.accountable_of_addCount (hw e rfl) h

end FogFlow.Master.ServiceMgr
