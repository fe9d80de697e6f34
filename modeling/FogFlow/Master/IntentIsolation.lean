import FogFlow.Master.ServiceMgr

namespace FogFlow.Master.ServiceMgr

open Ngsi Datamodel Execution IntentHandling

variable {marshal : GroupValue → String} {s t u : System} {rank : String → Nat}

-- the service intent that a step belongs to
def BelongsTo (s : System) : Label → String → Prop
  | .handle sIntent _ _ _, id => sIntent.id = id
  | .notify e, id => (e.subID, id) ∈ s.issued

-- flows, calls and subscriptions of a service intent stay as they are
structure Untouched (id : String) (s t : System) : Prop where
  tasks : t.service2TaskMap.slice id = s.service2TaskMap.slice id
  flows : ∀ task ∈ s.service2TaskMap.slice id,
    t.tMgr.fogFlows.get (fID task) = s.tMgr.fogFlows.get (fID task)
  calls : ∀ task ∈ s.service2TaskMap.slice id,
    t.calls.slice (fID task) = s.calls.slice (fID task)
  issued : ∀ subID, (subID, id) ∈ t.issued ↔ (subID, id) ∈ s.issued
  links : ∀ subID, (subID, id) ∈ s.issued →
    t.tMgr.subID2FogFunc.get subID = s.tMgr.subID2FogFunc.get subID
  cancelled : ∀ subID, (subID, id) ∈ s.issued →
    (subID ∈ t.unsubscribed ↔ subID ∈ s.unsubscribed)

theorem Untouched.refl (id : String) (s : System) : Untouched id s s :=
  ⟨rfl, fun _ _ => rfl, fun _ _ => rfl, fun _ => Iff.rfl, fun _ _ => rfl, fun _ _ => Iff.rfl⟩

theorem Untouched.trans {id : String} (hst : Untouched id s t) (htu : Untouched id t u) :
    Untouched id s u where
  tasks := htu.tasks.trans hst.tasks
  flows := fun task hin =>
    (htu.flows task (hst.tasks ▸ hin)).trans (hst.flows task hin)
  calls := fun task hin =>
    (htu.calls task (hst.tasks ▸ hin)).trans (hst.calls task hin)
  issued := fun subID => (htu.issued subID).trans (hst.issued subID)
  links := fun subID hsub =>
    (htu.links subID ((hst.issued subID).mpr hsub)).trans (hst.links subID hsub)
  cancelled := fun subID hsub =>
    (htu.cancelled subID ((hst.issued subID).mpr hsub)).trans (hst.cancelled subID hsub)

-- the notification has been applied to a flow of the service intent
def Applied (marshal : GroupValue → String) (s : System) (e : Event) (id : String) (t : System) :
    Prop :=
  ∃ task ∈ s.service2TaskMap.slice id, ∃ flow result,
    s.tMgr.fogFlows.get (fID task) = some flow ∧ flow.subscriptions.get e.subID ≠ none ∧
    handleUpdate marshal flow e = .ok result ∧
    t.tMgr.fogFlows.get (fID task) = some result.1 ∧
    t.calls.slice (fID task) = s.calls.slice (fID task) ++ result.2

structure Isolated (marshal : GroupValue → String) (s : System) (label : Label) (t : System) :
    Prop where
  untouched : ∀ id, ¬ BelongsTo s label id → Untouched id s t
  applied : ∀ e id, label = .notify e → (e.subID, id) ∈ s.issued → e.subID ∉ s.unsubscribed →
    Applied marshal s e id t
  fault : t.fault = none
  free : t.fogFlowsLocked = false

-- service intents are created and removed but not updated
def Regular (s : System) : Label → Prop
  | .handle sIntent _ _ _ => sIntent.action = "DELETE" ∨
      s.serviceIntentMap.get sIntent.id = none
  | .notify _ => True

-- the tasks of a new service intent have names of their own
def Separate (s : System) : Label → Prop
  | .handle sIntent topology _ _ => sIntent.action ≠ "DELETE" → ∀ t, topology = some t →
      (t.tasks.map Task.name).Nodup ∧ ∀ task ∈ t.tasks,
        s.tMgr.fogFlows.get (sIntent.topologyName ++ "." ++ task.name) = none
  | .notify _ => True

-- each flow is that of one task, and each subscription leads to the flow it was issued for
structure Owned (tasksOf : String → List TaskIntent) (s : System) : Prop where
  owner : ∀ id, ∀ task ∈ tasksOf id, task.serviceIntentID = id
  distinct : ∀ id, ((tasksOf id).map fID).Nodup
  flows : ∀ id, ∀ task ∈ tasksOf id, ∃ flow, s.tMgr.fogFlows.get (fID task) = some flow ∧
    flow.intent = task
  owned : ∀ f flow, s.tMgr.fogFlows.get f = some flow →
    flow.intent ∈ tasksOf flow.intent.serviceIntentID ∧ fID flow.intent = f
  known : ∀ f flow, s.tMgr.fogFlows.get f = some flow → ∀ subID,
    flow.subscriptions.get subID ≠ none → (subID, flow.intent.serviceIntentID) ∈ s.issued
  linked : ∀ subID id, (subID, id) ∈ s.issued → subID ∈ s.unsubscribed ∨
    ∃ task ∈ tasksOf id, s.tMgr.subID2FogFunc.get subID = some (fID task) ∧
      ∃ flow, s.tMgr.fogFlows.get (fID task) = some flow ∧ flow.subscriptions.get subID ≠ none
  mapped : ∀ subID, s.tMgr.subID2FogFunc.get subID ≠ none → subID ∈ s.issued.map Prod.fst
  once : (s.issued.map Prod.fst).Nodup

section Owned

variable {tasksOf : String → List TaskIntent} {task : TaskIntent} {id : String}

theorem owned_start : Owned start.service2TaskMap.slice start := by
  constructor <;> simp [start]

theorem Owned.apart (h : Owned tasksOf s) {other : String} {task' : TaskIntent}
    (hin : task ∈ tasksOf id) (hin' : task' ∈ tasksOf other) (hname : fID task = fID task') :
    task = task' ∧ id = other := by
  obtain ⟨flow, hflow, rfl⟩ := h.flows id task hin
  obtain ⟨flow', hflow', rfl⟩ := h.flows other task' hin'
  rw [hname, hflow'] at hflow
  obtain rfl := Option.some.inj hflow
  exact ⟨rfl, (h.owner id _ hin).symm.trans (h.owner other _ hin')⟩

theorem Owned.congr (h : Owned tasksOf s) (htMgr : t.tMgr = s.tMgr) (hissued : t.issued = s.issued)
    (hunsubscribed : t.unsubscribed = s.unsubscribed) : Owned tasksOf t := by
  refine ⟨h.owner, h.distinct, ?_, ?_, ?_, ?_, ?_, ?_⟩
  · rw [htMgr]
    exact h.flows
  · rw [htMgr]
    exact h.owned
  · rw [htMgr, hissued]
    exact h.known
  · rw [htMgr, hissued, hunsubscribed]
    exact h.linked
  · rw [htMgr, hissued]
    exact h.mapped
  · rw [hissued]
    exact h.once

theorem owned_handleTaskIntent {subIDs : Nat → String} (h : Owned tasksOf s)
    (howner : task.serviceIntentID = id) (hnone : s.tMgr.fogFlows.get (fID task) = none)
    (hnew : New s (granted task.taskObject subIDs)) :
    Owned (Function.update tasksOf id (tasksOf id ++ [task]))
      (handleTaskIntent id s (task, subIDs)) := by
  have hmem : ∀ j other, other ∈ Function.update tasksOf id (tasksOf id ++ [task]) j ↔
      other ∈ tasksOf j ∨ j = id ∧ other = task := by
    intro j other
    by_cases hj : j = id
    · subst hj
      simp
    · simp [hj]
  have hne : ∀ j, ∀ other ∈ tasksOf j, fID other ≠ fID task := by
    intro j other hin hname
    obtain ⟨flow, hflow, -⟩ := h.flows j other hin
    rw [hname, hnone] at hflow
    cases hflow
  refine ⟨?_, ?_, ?_, ?_, ?_, ?_, ?_, ?_⟩
  · intro j other hin
    rcases (hmem j other).mp hin with hin | ⟨rfl, rfl⟩
    · exact h.owner j other hin
    · exact howner
  · intro j
    by_cases hj : j = id
    · subst hj
      rw [Function.update_self, List.map_append]
      refine List.nodup_append.mpr ⟨h.distinct j, List.nodup_singleton _, ?_⟩
      rintro f hf g hg rfl
      obtain ⟨other, hin, rfl⟩ := List.mem_map.mp hf
      exact hne j other hin (List.mem_singleton.mp hg)
    · rw [Function.update_of_ne hj]
      exact h.distinct j
  · intro j other hin
    simp only [handleTaskIntent, GoMap.get_set]
    rcases (hmem j other).mp hin with hin | ⟨-, rfl⟩
    · rw [if_neg (hne j other hin)]
      exact h.flows j other hin
    · rw [if_pos rfl]
      exact ⟨_, rfl, subscribed_intent _ _⟩
  · intro f flow hf
    simp only [handleTaskIntent, GoMap.get_set] at hf
    split_ifs at hf with hname
    · obtain rfl := Option.some.inj hf
      rw [subscribed_intent, howner]
      exact ⟨(hmem id task).mpr (Or.inr ⟨rfl, rfl⟩), hname.symm⟩
    · obtain ⟨hin, hname'⟩ := h.owned f flow hf
      exact ⟨(hmem _ _).mpr (Or.inl hin), hname'⟩
  · intro f flow hf subID hsub
    simp only [handleTaskIntent, GoMap.get_set] at hf
    split_ifs at hf
    · obtain rfl := Option.some.inj hf
      rw [subscribed_intent, howner]
      obtain ⟨grant, hgrant, rfl⟩ := List.mem_map.mp ((get_subscribed _ _ _).mp hsub)
      exact List.mem_append_left _ (List.mem_map_of_mem (f := fun grant => (grant.2, id)) hgrant)
    · exact List.mem_append_right _ (h.known f flow hf subID hsub)
  · intro subID j hsub
    simp only [handleTaskIntent, get_linkAll]
    rcases List.mem_append.mp hsub with hsub | hsub
    · obtain ⟨grant, hgrant, heq⟩ := List.mem_map.mp hsub
      obtain ⟨rfl, rfl⟩ := Prod.mk.inj heq
      have hin : grant.2 ∈ (granted task.taskObject subIDs).map Prod.snd :=
        List.mem_map_of_mem hgrant
      exact Or.inr ⟨task, (hmem _ _).mpr (Or.inr ⟨rfl, rfl⟩), if_pos hin, _,
        GoMap.get_set_self _ _ _, (get_subscribed _ _ _).mpr hin⟩
    · refine (h.linked subID j hsub).imp_right (fun hopen => ?_)
      obtain ⟨other, hin, hlink, flow, hflow, hknows⟩ := hopen
      have hold : subID ∉ (granted task.taskObject subIDs).map Prod.snd := fun hin' =>
        hnew.unused subID hin' (List.mem_map_of_mem (f := Prod.fst) hsub)
      refine ⟨other, (hmem j other).mpr (Or.inl hin), by rw [if_neg hold, hlink], flow, ?_, hknows⟩
      rw [GoMap.get_set_ne _ _ (hne j other hin), hflow]
  · intro subID hmapped
    rw [issued_handleTaskIntent]
    simp only [handleTaskIntent, get_linkAll] at hmapped
    split_ifs at hmapped with hin
    · exact List.mem_append_left _ hin
    · exact List.mem_append_right _ (h.mapped subID hmapped)
  · rw [issued_handleTaskIntent]
    refine List.nodup_append.mpr ⟨hnew.nodup, h.once, ?_⟩
    rintro subID hin subID' hin' rfl
    exact hnew.unused subID hin hin'

theorem untouched_handleTaskIntent {subIDs : Nat → String} {other : String}
    (h : Owned tasksOf s) (hslice : s.service2TaskMap.slice other = tasksOf other)
    (hother : other ≠ id) (hnone : s.tMgr.fogFlows.get (fID task) = none)
    (hnew : New s (granted task.taskObject subIDs)) :
    Untouched other s (handleTaskIntent id s (task, subIDs)) := by
  have hne : ∀ task' ∈ s.service2TaskMap.slice other, fID task' ≠ fID task := by
    intro task' hin hname
    obtain ⟨flow, hflow, -⟩ := h.flows other task' (hslice ▸ hin)
    rw [hname, hnone] at hflow
    cases hflow
  refine ⟨rfl, fun task' hin => ?_, fun task' hin => ?_, fun subID => ?_, fun subID hsub => ?_,
    fun _ _ => Iff.rfl⟩
  · simp [handleTaskIntent, GoMap.get_set, hne task' hin]
  · simp [handleTaskIntent, GoMap.slice_set, hne task' hin]
  · simp [handleTaskIntent, Ne.symm hother]
  · have hold : subID ∉ (granted task.taskObject subIDs).map Prod.snd := fun hin' =>
      hnew.unused subID hin' (List.mem_map_of_mem (f := Prod.fst) hsub)
    simp only [handleTaskIntent, get_linkAll, if_neg hold]

theorem owned_removeTaskIntent {rest : List TaskIntent} (h : Owned tasksOf s)
    (hslice : tasksOf id = task :: rest) :
    Owned (Function.update tasksOf id rest) (removeTaskIntent rank s task) := by
  have hin : task ∈ tasksOf id := hslice ▸ List.mem_cons_self
  obtain ⟨flow, hflow, -⟩ := h.flows id task hin
  have hdistinct := h.distinct id
  rw [hslice, List.map_cons, List.nodup_cons] at hdistinct
  have hmem : ∀ j other, other ∈ Function.update tasksOf id rest j →
      other ∈ tasksOf j ∧ fID other ≠ fID task := by
    intro j other hother
    by_cases hj : j = id
    · subst hj
      rw [Function.update_self] at hother
      refine ⟨hslice ▸ List.mem_cons_of_mem _ hother, fun hname => ?_⟩
      exact hdistinct.1 (hname ▸ List.mem_map_of_mem hother)
    · rw [Function.update_of_ne hj] at hother
      exact ⟨hother, fun hname => hj (h.apart hother hin hname).2⟩
  have hleft : ∀ j other, other ∈ tasksOf j → fID other ≠ fID task →
      other ∈ Function.update tasksOf id rest j := by
    intro j other hother hname
    by_cases hj : j = id
    · subst hj
      rw [Function.update_self]
      rcases List.mem_cons.mp (hslice ▸ hother) with rfl | hother
      · exact absurd rfl hname
      · exact hother
    · rwa [Function.update_of_ne hj]
  rw [removeTaskIntent_eq rank hflow]
  refine ⟨fun j other hother => h.owner j other (hmem j other hother).1, fun j => ?_,
    fun j other hother => ?_, fun f other hf => ?_, fun f other hf => ?_, fun subID j hsub => ?_,
    h.mapped, h.once⟩
  · by_cases hj : j = id
    · subst hj
      rw [Function.update_self]
      exact hdistinct.2
    · rw [Function.update_of_ne hj]
      exact h.distinct j
  · obtain ⟨hother, hname⟩ := hmem j other hother
    obtain ⟨flow', hflow', hintent⟩ := h.flows j other hother
    exact ⟨flow', by simp [GoMap.get_delete, hname, hflow'], hintent⟩
  · obtain ⟨hne, hf⟩ := GoMap.get_of_get_delete hf
    obtain ⟨hother, hname⟩ := h.owned f other hf
    exact ⟨hleft _ _ hother (hname ▸ hne), hname⟩
  · exact h.known f other (GoMap.get_of_get_delete hf).2
  · rcases h.linked subID j hsub with hdone | ⟨other, hother, hlink, flow', hflow', hknows⟩
    · exact Or.inl (List.mem_append_left _ hdone)
    · by_cases hname : fID other = fID task
      · exact Or.inl (List.mem_append_right _ (mem_sidList.mpr (hname ▸ hlink)))
      · refine Or.inr ⟨other, hleft j other hother hname, hlink, flow', ?_, hknows⟩
        simp [GoMap.get_delete, hname, hflow']

theorem untouched_removeTaskIntent {other : String} (h : Owned tasksOf s)
    (hslice : s.service2TaskMap.slice other = tasksOf other) (hin : task ∈ tasksOf id)
    (hother : other ≠ id) : Untouched other s (removeTaskIntent rank s task) := by
  obtain ⟨flow, hflow, -⟩ := h.flows id task hin
  have hne : ∀ task' ∈ s.service2TaskMap.slice other, fID task' ≠ fID task :=
    fun task' hin' hname => hother (h.apart (hslice ▸ hin') hin hname).2
  rw [removeTaskIntent_eq rank hflow]
  refine ⟨rfl, fun task' hin' => ?_, fun task' hin' => ?_, fun _ => Iff.rfl, fun _ _ => rfl,
    fun subID hsub => ?_⟩
  · simp [GoMap.get_delete, hne task' hin']
  · simp [GoMap.slice, GoMap.get_delete, hne task' hin']
  · simp only [List.mem_append, mem_sidList]
    constructor
    · rintro (hdone | hlink)
      · exact hdone
      · rcases h.linked subID other hsub with hdone | ⟨task', hin', hlink', -⟩
        · exact hdone
        · rw [hlink] at hlink'
          exact absurd (Option.some.inj hlink').symm (hne task' (hslice ▸ hin'))
    · exact Or.inl

theorem handleUpdate_unknown {flow : FogFlow} {e : Event}
    (h : flow.subscriptions.get e.subID = none) : handleUpdate marshal flow e = .ok (flow, []) := by
  simp [handleUpdate, metadataDrivenTaskOrchestration, h, runActions]

theorem owned_notify {e : Event} (h : Owned tasksOf s) (hs : notify marshal s e = some t) :
    Owned tasksOf t := by
  cases notify_cases hs with
  | unlinked _ => exact h
  | removed _ _ _ => exact h
  | applied f flow result hfunc hflow hupdate =>
    have hstep := step_of_handleUpdate hupdate
    have hintent := intent_step hstep
    have hsubs := subscriptions_step hstep
    refine ⟨h.owner, h.distinct, fun j task hin => ?_, fun g other hg => ?_, fun g other hg => ?_,
      fun subID j hsub => ?_, h.mapped, h.once⟩
    · obtain ⟨flow', hflow', rfl⟩ := h.flows j task hin
      by_cases hname : fID flow'.intent = f
      · rw [hname, hflow] at hflow'
        obtain rfl := Option.some.inj hflow'
        exact ⟨result.1, by simp [hname], hintent⟩
      · exact ⟨flow', by simp [GoMap.get_set, hname, hflow'], rfl⟩
    · simp only [GoMap.get_set] at hg
      split_ifs at hg with hname
      · obtain rfl := Option.some.inj hg
        rw [hintent, hname]
        exact h.owned f flow hflow
      · exact h.owned g other hg
    · simp only [GoMap.get_set] at hg
      split_ifs at hg
      · obtain rfl := Option.some.inj hg
        intro subID hsub
        rw [hintent]
        rw [ne_eq, hsubs] at hsub
        exact h.known f flow hflow subID hsub
      · exact h.known g other hg
    · refine (h.linked subID j hsub).imp_right (fun hopen => ?_)
      obtain ⟨task, hin, hlink, flow', hflow', hknows⟩ := hopen
      refine ⟨task, hin, hlink, ?_⟩
      by_cases hname : fID task = f
      · rw [hname, hflow] at hflow'
        obtain rfl := Option.some.inj hflow'
        exact ⟨result.1, by simp [hname], by rwa [ne_eq, hsubs]⟩
      · exact ⟨flow', by simp [GoMap.get_set, hname, hflow'], hknows⟩

theorem untouched_notify {e : Event} {other : String}
    (h : Owned tasksOf s) (hslice : s.service2TaskMap.slice other = tasksOf other)
    (hother : (e.subID, other) ∉ s.issued) (hs : notify marshal s e = some t) :
    Untouched other s t := by
  cases notify_cases hs with
  | unlinked _ => exact .refl other s
  | removed _ _ _ => exact .refl other s
  | applied f flow result hfunc hflow hupdate =>
    -- a flow of the other service intent does not know the subscription
    have hsame : ∀ task ∈ s.service2TaskMap.slice other, fID task = f → result = (flow, []) := by
      intro task hin hname
      obtain ⟨flow', hflow', rfl⟩ := h.flows other task (hslice ▸ hin)
      rw [hname, hflow] at hflow'
      obtain rfl := Option.some.inj hflow'
      have hunknown : flow.subscriptions.get e.subID = none := by
        by_contra hknows
        have hissued := h.known f flow hflow e.subID hknows
        rw [h.owner other _ (hslice ▸ hin)] at hissued
        exact hother hissued
      rw [handleUpdate_unknown hunknown] at hupdate
      exact (Except.ok.inj hupdate).symm
    refine ⟨rfl, fun task hin => ?_, fun task hin => ?_, fun _ => Iff.rfl, fun _ _ => rfl,
      fun _ _ => Iff.rfl⟩
    · rw [GoMap.get_set]
      split_ifs with hname
      · rw [hsame task hin hname, hname, hflow]
      · rfl
    · rw [GoMap.slice_set]
      split_ifs with hname
      · rw [hsame task hin hname, hname, List.append_nil]
      · rfl

theorem applied_notify {e : Event} (h : Owned s.service2TaskMap.slice s)
    (hissued : (e.subID, id) ∈ s.issued) (hopen : e.subID ∉ s.unsubscribed)
    (hs : notify marshal s e = some t) : Applied marshal s e id t := by
  rcases h.linked e.subID id hissued with hdone | ⟨task, hin, hlink, flow, hflow, hknows⟩
  · exact absurd hdone hopen
  cases notify_cases hs with
  | unlinked hnone => simp [hnone] at hlink
  | removed f hfunc hnone =>
    rw [hlink] at hfunc
    rw [Option.some.inj hfunc, hnone] at hflow
    cases hflow
  | applied f flow' result hfunc hflow' hupdate =>
    obtain rfl := Option.some.inj (hlink.symm.trans hfunc)
    obtain rfl := Option.some.inj (hflow.symm.trans hflow')
    exact ⟨task, hin, flow, result, hflow, hknows, hupdate, GoMap.get_set_self _ _ _,
      by rw [GoMap.slice_set, if_pos rfl]⟩

end Owned

section Loops

variable {tasksOf : String → List TaskIntent} {id : String}

-- the tasks of a creation that are still to be handled, with the answers of discovery
structure Creatable (id : String) (s : System) (tasks : List (TaskIntent × (Nat → String))) :
    Prop where
  owner : ∀ task ∈ tasks, task.1.serviceIntentID = id
  absent : ∀ task ∈ tasks, s.tMgr.fogFlows.get (fID task.1) = none
  distinct : (tasks.map (fun task => fID task.1)).Nodup
  new : New s (tasks.flatMap (fun task => granted task.1.taskObject task.2))

theorem Creatable.head {task : TaskIntent × (Nat → String)}
    {tasks : List (TaskIntent × (Nat → String))} (h : Creatable id s (task :: tasks)) :
    New s (granted task.1.taskObject task.2) :=
  h.new.head

theorem Creatable.tail {task : TaskIntent × (Nat → String)}
    {tasks : List (TaskIntent × (Nat → String))} (h : Creatable id s (task :: tasks)) :
    Creatable id (handleTaskIntent id s task) tasks := by
  have hdistinct := h.distinct
  rw [List.map_cons, List.nodup_cons] at hdistinct
  refine ⟨fun other hin => h.owner other (List.mem_cons_of_mem _ hin), fun other hin => ?_,
    hdistinct.2, h.new.tail id⟩
  have hne : fID other.1 ≠ fID task.1 := fun hname => hdistinct.1 (hname ▸
    List.mem_map_of_mem (f := fun task : TaskIntent × (Nat → String) => fID task.1) hin)
  simp only [handleTaskIntent, GoMap.get_set, if_neg hne]
  exact h.absent other (List.mem_cons_of_mem _ hin)

theorem owned_creation {tasks : List (TaskIntent × (Nat → String))} (h : Owned tasksOf s)
    (hc : Creatable id s tasks) :
    Owned (Function.update tasksOf id (tasksOf id ++ tasks.map Prod.fst))
        (tasks.foldl (handleTaskIntent id) s) ∧
      ∀ other, other ≠ id → s.service2TaskMap.slice other = tasksOf other →
        Untouched other s (tasks.foldl (handleTaskIntent id) s) := by
  induction tasks generalizing s tasksOf with
  | nil => simpa using ⟨h, fun other _ _ => .refl other s⟩
  | cons task tasks ih =>
    have hnone := hc.absent task List.mem_cons_self
    have hfirst := owned_handleTaskIntent h (hc.owner task List.mem_cons_self) hnone hc.head
    obtain ⟨howned, hothers⟩ := ih hfirst hc.tail
    refine ⟨by simpa using howned, fun other hother hslice => ?_⟩
    refine (untouched_handleTaskIntent h hslice hother hnone hc.head).trans ?_
    exact hothers other hother (by rw [Function.update_of_ne hother, ← hslice]; rfl)

theorem owned_removal (rank : String → Nat) (id : String) {list : List TaskIntent}
    (h : Owned tasksOf s) (hlist : tasksOf id = list)
    (hfault : s.fault = none) (hfree : s.fogFlowsLocked = false) :
    Owned (Function.update tasksOf id []) (removeTaskIntents rank s list) ∧
      (removeTaskIntents rank s list).fault = none ∧
      (removeTaskIntents rank s list).fogFlowsLocked = false ∧
      ∀ other, other ≠ id → s.service2TaskMap.slice other = tasksOf other →
        Untouched other s (removeTaskIntents rank s list) := by
  induction list generalizing s tasksOf with
  | nil =>
    refine ⟨?_, hfault, hfree, fun other _ _ => .refl other s⟩
    have hnil : Function.update tasksOf id [] = tasksOf := by
      rw [← hlist, Function.update_eq_self]
    rw [hnil]
    exact h
  | cons task rest ih =>
    have hin : task ∈ tasksOf id := hlist ▸ List.mem_cons_self
    obtain ⟨flow, hflow, -⟩ := h.flows id task hin
    have hfirst := removeTaskIntent_eq rank hflow
    rw [removeTaskIntents_cons hfault]
    obtain ⟨howned, hfault', hfree', hothers⟩ := ih (owned_removeTaskIntent h hlist)
      (Function.update_self _ _ _) (by rw [hfirst]; exact hfault) (by rw [hfirst])
    refine ⟨by simpa using howned, hfault', hfree', fun other hother hslice => ?_⟩
    have hhead : Untouched other s (removeTaskIntent rank s task) :=
      untouched_removeTaskIntent h hslice hin hother
    exact hhead.trans (hothers other hother (by
      rw [Function.update_of_ne hother, ← hslice, hfirst]))

end Loops

structure Sound (s : System) : Prop where
  owned : Owned s.service2TaskMap.slice s
  recorded : ∀ id, s.serviceIntentMap.get id = none → s.service2TaskMap.slice id = []
  fault : s.fault = none
  free : s.fogFlowsLocked = false

theorem sound_start : Sound start := ⟨owned_start, by simp [start], rfl, rfl⟩

theorem slice_set_eq_update (m : GoMap (List TaskIntent)) (id : String) (list : List TaskIntent) :
    (m.set id list).slice = Function.update m.slice id list := by
  funext j
  rw [GoMap.slice_set, Function.update_apply]

theorem slice_delete_eq_update (m : GoMap (List TaskIntent)) (id : String) :
    (m.delete id).slice = Function.update m.slice id [] := by
  funext j
  rw [GoMap.slice, GoMap.get_delete, Function.update_apply]
  split_ifs <;> rfl

theorem creatable_newTaskIntents {sIntent : ServiceIntent} {topology : Topology}
    {subIDs : Nat → Nat → String} (hadd : sIntent.action ≠ "DELETE")
    (hsep : Separate s (.handle sIntent (some topology) subIDs rank))
    (hnew : areNew s (answered sIntent (some topology) subIDs) = true) :
    Creatable sIntent.id s ((topology.tasks.map (newTaskIntent sIntent sIntent.id)).zipIdx.map
      (fun task => (task.1, subIDs task.2))) := by
  obtain ⟨hnames, habsent⟩ := hsep hadd topology rfl
  have hmem : ∀ task ∈ (topology.tasks.map (newTaskIntent sIntent sIntent.id)).zipIdx.map
      (fun task => (task.1, subIDs task.2)),
      ∃ task' ∈ topology.tasks, task.1 = newTaskIntent sIntent sIntent.id task' := by
    intro task hin
    obtain ⟨⟨taskIntent, i⟩, hzip, rfl⟩ := List.mem_map.mp hin
    have hin' : taskIntent ∈ topology.tasks.map (newTaskIntent sIntent sIntent.id) :=
      (List.mem_zipIdx' hzip).2 ▸ List.getElem_mem _
    obtain ⟨task', htask', heq⟩ := List.mem_map.mp hin'
    exact ⟨task', htask', heq.symm⟩
  refine ⟨fun task hin => ?_, fun task hin => ?_, ?_, new_of_areNew sIntent.id hadd hnew⟩
  · obtain ⟨task', -, heq⟩ := hmem task hin
    rw [heq]
    rfl
  · obtain ⟨task', hin', heq⟩ := hmem task hin
    rw [heq]
    exact habsent task' hin'
  · have hlist : ((topology.tasks.map (newTaskIntent sIntent sIntent.id)).zipIdx.map
        (fun task => (task.1, subIDs task.2))).map (fun task => fID task.1) =
          (topology.tasks.map Task.name).map (fun name => sIntent.topologyName ++ "." ++ name) := by
      rw [List.map_map, List.map_map, List.zipIdx_map, List.map_map,
        ← List.zipIdx_map_fst 0 topology.tasks, List.map_map, List.zipIdx_map_fst]
      rfl
    rw [hlist]
    exact hnames.map (fun a b hab => String.append_right_inj _ |>.mp hab)

theorem isolated_of_untouched {sIntent : ServiceIntent} {topology : Option Topology}
    {subIDs : Nat → Nat → String}
    (h : ∀ other, other ≠ sIntent.id → Untouched other s t) (hfault : t.fault = none)
    (hfree : t.fogFlowsLocked = false) :
    Isolated marshal s (.handle sIntent topology subIDs rank) t :=
  ⟨fun other hother => h other (Ne.symm hother), fun _ _ heq => by simp at heq, hfault, hfree⟩

theorem isolated_removal {sIntent : ServiceIntent} {topology : Option Topology}
    {subIDs : Nat → Nat → String} (h : Sound s) :
    Sound (removeServiceIntent rank s sIntent.id) ∧ Isolated marshal s
      (.handle sIntent topology subIDs rank) (removeServiceIntent rank s sIntent.id) := by
  obtain ⟨howned, hfault, hfree, hothers⟩ := owned_removal rank sIntent.id h.owned rfl h.fault
    h.free
  rw [removeServiceIntent_eq hfault]
  refine ⟨⟨?_, fun other hother => ?_, hfault, hfree⟩, isolated_of_untouched ?_ hfault hfree⟩
  · rw [slice_delete_eq_update]
    exact howned.congr rfl rfl rfl
  · rw [slice_delete_eq_update, Function.update_apply]
    split_ifs with heq
    · rfl
    · refine h.recorded other ?_
      rwa [GoMap.get_delete, if_neg heq] at hother
  · intro other hother
    obtain ⟨-, hflows, hcalls, hissued, hlinks, hcancelled⟩ := hothers other hother rfl
    refine ⟨?_, hflows, hcalls, hissued, hlinks, hcancelled⟩
    rw [slice_delete_eq_update, Function.update_of_ne hother]

theorem isolated_creation {sIntent : ServiceIntent} {topology : Option Topology}
    {subIDs : Nat → Nat → String} (h : Sound s) (hadd : sIntent.action ≠ "DELETE")
    (habsent : s.serviceIntentMap.get sIntent.id = none)
    (hsep : Separate s (.handle sIntent topology subIDs rank))
    (hnew : areNew s (answered sIntent topology subIDs) = true) :
    Sound (handleServiceIntent s sIntent topology subIDs) ∧ Isolated marshal s
      (.handle sIntent topology subIDs rank) (handleServiceIntent s sIntent topology subIDs) := by
  rw [handleServiceIntent, habsent, Option.isSome_none, if_neg Bool.false_ne_true]
  cases topology with
  | none => exact ⟨h, isolated_of_untouched (fun other _ => .refl other s) h.fault h.free⟩
  | some topology =>
    have hcreatable := creatable_newTaskIntents hadd hsep hnew
    obtain ⟨howned, hothers⟩ := owned_creation h.owned hcreatable
    have hlist : s.service2TaskMap.slice sIntent.id ++
        ((topology.tasks.map (newTaskIntent sIntent sIntent.id)).zipIdx.map
          (fun task => (task.1, subIDs task.2))).map Prod.fst =
            topology.tasks.map (newTaskIntent sIntent sIntent.id) := by
      rw [h.recorded sIntent.id habsent, List.nil_append, List.map_map]
      exact List.zipIdx_map_fst 0 _
    rw [hlist] at howned
    obtain ⟨hmap, hintents, hfault, hfree⟩ := frame_handleTaskIntent sIntent.id s
      ((topology.tasks.map (newTaskIntent sIntent sIntent.id)).zipIdx.map
        (fun task => (task.1, subIDs task.2)))
    simp only [createNewServiceIntent, handleTaskIntents]
    refine ⟨⟨?_, fun other hother => ?_, hfault.trans h.fault, hfree.trans h.free⟩,
      isolated_of_untouched (fun other hother => ?_) (hfault.trans h.fault) (hfree.trans h.free)⟩
    · rw [hmap, slice_set_eq_update]
      exact howned.congr rfl rfl rfl
    · rw [hintents, GoMap.get_set] at hother
      split_ifs at hother with heq
      rw [hmap, slice_set_eq_update, Function.update_of_ne heq]
      exact h.recorded other hother
    · obtain ⟨-, hflows, hcalls, hissued, hlinks, hcancelled⟩ := hothers other hother rfl
      refine ⟨?_, hflows, hcalls, hissued, hlinks, hcancelled⟩
      rw [hmap, slice_set_eq_update, Function.update_of_ne hother]

theorem isolated_step {label : Label} (h : Sound s) (hreg : Regular s label)
    (hsep : Separate s label) (hs : step marshal s label = some t) :
    Sound t ∧ Isolated marshal s label t := by
  cases label with
  | notify e =>
    simp only [step, h.fault, if_true] at hs
    have hframe : t.service2TaskMap = s.service2TaskMap ∧
        t.serviceIntentMap = s.serviceIntentMap ∧ t.fault = s.fault ∧
        t.fogFlowsLocked = s.fogFlowsLocked := by
      cases notify_cases hs <;> exact ⟨rfl, rfl, rfl, rfl⟩
    obtain ⟨hmap, hintents, hfault, hfree⟩ := hframe
    refine ⟨⟨?_, ?_, hfault.trans h.fault, hfree.trans h.free⟩, fun other hother =>
      untouched_notify h.owned rfl hother hs, ?_, hfault.trans h.fault, hfree.trans h.free⟩
    · rw [hmap]
      exact owned_notify h.owned hs
    · rw [hmap, hintents]
      exact h.recorded
    · intro e' id heq hissued hopen
      obtain rfl := Label.notify.inj heq
      exact applied_notify h.owned hissued hopen hs
  | handle sIntent topology subIDs rank =>
    simp only [step] at hs
    split_ifs at hs with hready
    obtain rfl := Option.some.inj hs
    unfold handleServiceIntentUpdate
    split_ifs with hdelete
    · exact isolated_removal h
    · exact isolated_creation h hdelete (hreg.resolve_left hdelete) hsep hready.2

-- each step of the run leaves the other service intents alone
def StepsIsolated (marshal : GroupValue → String) (labels : List Label) : Prop :=
  Meets (step marshal) (fun s label => ∀ t, step marshal s label = some t →
    Isolated marshal s label t) start labels

def IntentsIsolated (marshal : GroupValue → String) : Prop :=
  ∀ labels, Meets (step marshal) Regular start labels → StepsIsolated marshal labels

def isRegular (s : System) : Label → Bool
  | .handle sIntent _ _ _ => sIntent.action == "DELETE" ||
      (s.serviceIntentMap.get sIntent.id).isNone
  | .notify _ => true

theorem regular_of_isRegular {label : Label} (h : isRegular s label = true) : Regular s label := by
  cases label with
  | notify e => trivial
  | handle sIntent topology subIDs rank => simpa [isRegular, Regular] using h

def sameTopology : List Label :=
  [add "intent1" "topology" "sub1", add "intent2" "topology" "sub2",
    delete "intent1" "topology", delete "intent2" "topology"]

def twoTopologies : List Label :=
  [add "intent1" "topology1" "sub1", add "intent2" "topology2" "sub2", carArrives "sub1",
    delete "intent2" "topology2", carArrives "sub1", delete "intent1" "topology1"]

def isSeparate (s : System) : Label → Bool
  | .handle sIntent topology _ _ => topology.all (fun t => (t.tasks.map Task.name).Nodup &&
      t.tasks.all (fun task =>
        (s.tMgr.fogFlows.get (sIntent.topologyName ++ "." ++ task.name)).isNone))
  | .notify _ => true

theorem separate_of_isSeparate {label : Label} (h : isSeparate s label = true) :
    Separate s label := by
  cases label with
  | notify e => trivial
  | handle sIntent topology subIDs rank =>
    rintro - t rfl
    simpa [isSeparate] using h

end FogFlow.Master.ServiceMgr
