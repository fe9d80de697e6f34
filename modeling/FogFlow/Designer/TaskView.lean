import FogFlow.Designer.TaskMap

namespace FogFlow.Designer

open Datamodel Worker Execution

def Listed (taskMap : TaskMap) (t worker status : String) : Prop :=
  ∃ entry, taskMap.get t = some entry ∧ entry.worker = worker ∧ entry.updateMsg.status = status

def Deployed (s : Deployment) (t worker status : String) : Prop :=
  ∃ task, (s.sites worker).allTasks.get t = some task ∧ TaskStatus.text task.status = status

def Exact (s : Deployment) : Prop :=
  ∀ t worker status, Listed s.taskMap t worker status ↔ Deployed s t worker status

def Quiescent (s : Deployment) : Prop :=
  s.underWay = [] ∧ ∀ wid, (s.sites wid).executor.goroutines = []

-- a TerminateTask that is to report the task as removed
def removes (t : String) : Goroutine → Bool
  | .lookUp taskID paused => taskID == t && !paused
  | .stopTask termination => termination.taskID == t && !termination.paused
  | .cleanUp termination => termination.taskID == t && !termination.paused
  | _ => false

def removing (e : Executor) (t : String) : Bool := e.goroutines.any (removes t)

def Orderly (s : Deployment) : Event → Prop
  | .site _ (.scheduled task) => ∀ wid,
      (s.sites wid).allTasks.get task.id = none ∧ removing (s.sites wid).executor task.id = false
  | .site wid (.terminated taskID) => ∀ task,
      (s.sites wid).allTasks.get taskID = some task → task.status = .running
  | .site wid (.run i _) =>
      (∀ taskID, (s.sites wid).executor.goroutines[i]? = some (.lookUp taskID false) →
        (s.sites wid).executor.taskInstances.get taskID ≠ none) ∧
      (∀ termination, (s.sites wid).executor.goroutines[i]? = some (.cleanUp termination) →
        termination.paused = true → ∃ task,
          (s.sites wid).allTasks.get termination.taskID = some task ∧ task.status = .paused)
  | .arrive i => ∀ msg, s.underWay[i]? = some msg →
      ∀ older ∈ s.underWay.take i, older.taskID ≠ msg.taskID

variable {s : Deployment} {t wid : String}

-- the entry of a task once all that was published about it has arrived
def Deployment.outcome (s : Deployment) (t : String) : Option TaskEntry :=
  Inbox.outcome JsonMsg.taskID entryAfter (s.taskMap.get t) s.underWay t

structure Faithful (s : Deployment) : Prop where
  keyed : ∀ wid, Keyed (s.sites wid).allTasks
  single : ∀ t wid wid', (s.sites wid).allTasks.get t ≠ none →
    (s.sites wid').allTasks.get t ≠ none → wid = wid'
  listed : ∀ t wid task, (s.sites wid).allTasks.get t = some task →
    ∃ entry, s.outcome t = some entry ∧ entry.worker = wid ∧
      entry.updateMsg.status = TaskStatus.text task.status
  left : ∀ t wid, removing (s.sites wid).executor t = true →
    ∀ wid', (s.sites wid').allTasks.get t = none
  unlisted : ∀ t, (∀ wid, (s.sites wid).allTasks.get t = none) →
    s.outcome t = none ∨ ∃ wid, removing (s.sites wid).executor t = true

theorem faithful_init : Faithful .init where
  keyed _ := keyed_empty
  single t wid wid' h _ := absurd rfl h
  listed t wid task h := by cases h
  left t wid h wid' := rfl
  unlisted t h := Or.inl rfl

theorem exact_of_quiescent (h : Faithful s) (hq : Quiescent s) : Exact s := by
  obtain ⟨hunderWay, hgoroutines⟩ := hq
  have houtcome (t : String) : s.outcome t = s.taskMap.get t := by
    rw [Deployment.outcome, hunderWay, Inbox.outcome_nil]
  intro t worker status
  constructor
  · rintro ⟨entry, hentry, rfl, rfl⟩
    by_cases hdeployed : ∀ wid, (s.sites wid).allTasks.get t = none
    · rcases h.unlisted t hdeployed with hnone | ⟨wid, hremoving⟩
      · rw [houtcome, hentry] at hnone
        cases hnone
      · rw [removing, hgoroutines wid] at hremoving
        cases hremoving
    · obtain ⟨wid, hget⟩ := not_forall.mp hdeployed
      obtain ⟨task, hget⟩ := Option.ne_none_iff_exists'.mp hget
      obtain ⟨entry', hentry', hworker, hstatus⟩ := h.listed t wid task hget
      rw [houtcome, hentry] at hentry'
      obtain rfl := Option.some.inj hentry'
      exact ⟨task, by rw [hworker, hget], hstatus.symm⟩
  · rintro ⟨task, hget, rfl⟩
    obtain ⟨entry, hentry, hworker, hstatus⟩ := h.listed t worker task hget
    rw [houtcome] at hentry
    exact ⟨entry, hentry, hworker, hstatus⟩

-- all that a step of a worker can do to a task
inductive TaskStep (s : Deployment) (wid : String) (next : WorkerSystem) (t : String) :
    List UpdateMsg → Prop where
  | kept (hget : next.allTasks.get t = (s.sites wid).allTasks.get t)
      (hremoving : removing next.executor t = removing (s.sites wid).executor t) :
      TaskStep s wid next t []
  | updated (old task : ScheduledTaskInstance) (msg : UpdateMsg)
      (hold : (s.sites wid).allTasks.get t = some old) (hget : next.allTasks.get t = some task)
      (hremoving : removing next.executor t = removing (s.sites wid).executor t)
      (hstatus : msg.status = TaskStatus.text task.status) : TaskStep s wid next t [msg]
  | arrived (task : ScheduledTaskInstance) (msg : UpdateMsg)
      (hnowhere : ∀ wid', (s.sites wid').allTasks.get t = none ∧
        removing (s.sites wid').executor t = false)
      (hget : next.allTasks.get t = some task) (hremoving : removing next.executor t = false)
      (hstatus : msg.status = TaskStatus.text task.status) : TaskStep s wid next t [msg]
  | left (hold : (s.sites wid).allTasks.get t ≠ none) (hget : next.allTasks.get t = none)
      (hremoving : removing next.executor t = true) : TaskStep s wid next t []
  | removed (msg : UpdateMsg) (hold : removing (s.sites wid).executor t = true)
      (hget : next.allTasks.get t = (s.sites wid).allTasks.get t)
      (hstatus : msg.status = "removed") : TaskStep s wid next t [msg]

theorem text_ne_removed (status : TaskStatus) : (TaskStatus.text status == "removed") = false := by
  cases status with
  | scheduled => rfl
  | running => rfl
  | paused => rfl

-- the system after a step of one worker
def Deployment.after (s : Deployment) (wid : String) (next : WorkerSystem)
    (msgs : List UpdateMsg) : Deployment :=
  { s with
    sites := Function.update s.sites wid next
    underWay := s.underWay ++ msgs.map (JsonMsg.mk wid) }

theorem sites_after_self (next : WorkerSystem) (msgs : List UpdateMsg) :
    (s.after wid next msgs).sites wid = next := by
  simp [Deployment.after]

theorem sites_after_ne {wid' : String} (h : wid' ≠ wid) (next : WorkerSystem)
    (msgs : List UpdateMsg) : (s.after wid next msgs).sites wid' = s.sites wid' := by
  simp [Deployment.after, h]

theorem outcome_after {next : WorkerSystem} {msgs about : List UpdateMsg}
    (habout : msgs.filter (fun msg => decide (msg.taskID = t)) = about) :
    (s.after wid next msgs).outcome t =
      (about.map (JsonMsg.mk wid)).foldl entryAfter (s.outcome t) := by
  unfold Deployment.outcome Deployment.after
  rw [Inbox.outcome_append]
  refine Inbox.outcome_of_filter ?_
  rw [List.filter_map, ← habout]
  rfl

variable {next : WorkerSystem} {msgs : List UpdateMsg}

section

variable (h : Faithful s)
  (hsteps : ∀ t, TaskStep s wid next t (msgs.filter (fun msg => decide (msg.taskID = t))))

include h hsteps

theorem single_after (t wid₁ wid₂ : String)
    (h₁ : ((s.after wid next msgs).sites wid₁).allTasks.get t ≠ none)
    (h₂ : ((s.after wid next msgs).sites wid₂).allTasks.get t ≠ none) : wid₁ = wid₂ := by
  -- a task that the worker has after its step was at no other worker
  have hother {wid' : String} (hne : wid' ≠ wid) (hnext : next.allTasks.get t ≠ none)
      (hget : (s.sites wid').allTasks.get t ≠ none) : False := by
    have hstep := hsteps t
    generalize msgs.filter (fun msg => decide (msg.taskID = t)) = about at hstep
    cases hstep with
    | kept hsame hremoving => exact hne (h.single t wid' wid hget (hsame ▸ hnext))
    | updated old task msg hold hsame hremoving hstatus =>
      exact hne (h.single t wid' wid hget (by rw [hold]; exact Option.some_ne_none _))
    | arrived task msg hnowhere hsame hremoving hstatus => exact hget (hnowhere wid').1
    | left hold hnone hremoving => exact hnext hnone
    | removed msg hold hsame hstatus =>
      exact hget (h.left t wid hold wid')
  by_cases hwid₁ : wid₁ = wid
  · by_cases hwid₂ : wid₂ = wid
    · exact hwid₁.trans hwid₂.symm
    · subst hwid₁
      rw [sites_after_self] at h₁
      rw [sites_after_ne hwid₂] at h₂
      exact (hother hwid₂ h₁ h₂).elim
  · rw [sites_after_ne hwid₁] at h₁
    by_cases hwid₂ : wid₂ = wid
    · subst hwid₂
      rw [sites_after_self] at h₂
      exact (hother hwid₁ h₂ h₁).elim
    · rw [sites_after_ne hwid₂] at h₂
      exact h.single t wid₁ wid₂ h₁ h₂

theorem listed_after (t wid' : String) (task : ScheduledTaskInstance)
    (hget : ((s.after wid next msgs).sites wid').allTasks.get t = some task) :
    ∃ entry, (s.after wid next msgs).outcome t = some entry ∧ entry.worker = wid' ∧
      entry.updateMsg.status = TaskStatus.text task.status := by
  have hstep := hsteps t
  generalize habout : msgs.filter (fun msg => decide (msg.taskID = t)) = about at hstep
  rw [outcome_after habout]
  by_cases hwid : wid' = wid
  · subst hwid
    rw [sites_after_self] at hget
    cases hstep with
    | kept hsame hremoving => exact h.listed t wid' task (hsame ▸ hget)
    | updated old new msg hold hsame hremoving hstatus =>
      obtain rfl := Option.some.inj (hget.symm.trans hsame)
      obtain ⟨entry, hentry, hworker, -⟩ := h.listed t wid' old hold
      rw [hentry]
      refine ⟨{ entry with updateMsg := { entry.updateMsg with status := msg.status } }, ?_,
        hworker, hstatus⟩
      simp [entryAfter, hstatus, text_ne_removed]
    | arrived new msg hnowhere hsame hremoving hstatus =>
      obtain rfl := Option.some.inj (hget.symm.trans hsame)
      have hnone : s.outcome t = none := by
        refine (h.unlisted t (fun wid => (hnowhere wid).1)).resolve_right ?_
        rintro ⟨wid, hremoves⟩
        rw [(hnowhere wid).2] at hremoves
        cases hremoves
      rw [hnone]
      refine ⟨⟨msg, wid'⟩, ?_, rfl, hstatus⟩
      simp [entryAfter, hstatus, text_ne_removed]
    | left hold hnone hremoving =>
      rw [hnone] at hget
      cases hget
    | removed msg hold hsame hstatus =>
      rw [hsame, h.left t wid' hold wid'] at hget
      cases hget
  · rw [sites_after_ne hwid] at hget
    have hpresent : (s.sites wid').allTasks.get t ≠ none := by
      rw [hget]
      exact Option.some_ne_none _
    cases hstep with
    | kept hsame hremoving => exact h.listed t wid' task hget
    | updated old new msg hold hsame hremoving hstatus =>
      exact absurd (h.single t wid' wid hpresent (by rw [hold]; exact Option.some_ne_none _)) hwid
    | arrived new msg hnowhere hsame hremoving hstatus =>
      exact absurd (hnowhere wid').1 hpresent
    | left hold hnone hremoving => exact absurd (h.single t wid' wid hpresent hold) hwid
    | removed msg hold hsame hstatus => exact absurd (h.left t wid hold wid') hpresent

theorem left_after (t wid' : String)
    (hremoves : removing ((s.after wid next msgs).sites wid').executor t = true) :
    ∀ wid'', ((s.after wid next msgs).sites wid'').allTasks.get t = none := by
  have hstep := hsteps t
  generalize msgs.filter (fun msg => decide (msg.taskID = t)) = about at hstep
  -- where a removal was under way before the step
  have hbefore (hold : ∃ wid, removing (s.sites wid).executor t = true)
      (hget : next.allTasks.get t = (s.sites wid).allTasks.get t) :
      ∀ wid'', ((s.after wid next msgs).sites wid'').allTasks.get t = none := by
    obtain ⟨wid₀, hold⟩ := hold
    intro wid''
    by_cases hwid : wid'' = wid
    · rw [hwid, sites_after_self, hget]
      exact h.left t wid₀ hold wid
    · rw [sites_after_ne hwid]
      exact h.left t wid₀ hold wid''
  by_cases hwid : wid' = wid
  · subst hwid
    rw [sites_after_self] at hremoves
    cases hstep with
    | kept hsame hremoving => exact hbefore ⟨wid', hremoving ▸ hremoves⟩ hsame
    | updated old new msg hold hsame hremoving hstatus =>
      rw [hremoving] at hremoves
      rw [h.left t wid' hremoves wid'] at hold
      cases hold
    | arrived new msg hnowhere hsame hremoving hstatus =>
      rw [hremoving] at hremoves
      cases hremoves
    | left hold hnone hremoving =>
      intro wid''
      by_cases hwid : wid'' = wid'
      · rw [hwid, sites_after_self]
        exact hnone
      · rw [sites_after_ne hwid]
        by_contra hget
        exact hwid (h.single t wid'' wid' hget hold)
    | removed msg hold hsame hstatus => exact hbefore ⟨wid', hold⟩ hsame
  · rw [sites_after_ne hwid] at hremoves
    have hnone := h.left t wid' hremoves
    cases hstep with
    | kept hsame hremoving => exact hbefore ⟨wid', hremoves⟩ hsame
    | updated old new msg hold hsame hremoving hstatus =>
      rw [hnone wid] at hold
      cases hold
    | arrived new msg hnowhere hsame hremoving hstatus =>
      rw [(hnowhere wid').2] at hremoves
      cases hremoves
    | left hold hgone hremoving => exact absurd (hnone wid) hold
    | removed msg hold hsame hstatus => exact hbefore ⟨wid, hold⟩ hsame

theorem unlisted_after (t : String)
    (hnowhere : ∀ wid', ((s.after wid next msgs).sites wid').allTasks.get t = none) :
    (s.after wid next msgs).outcome t = none ∨
      ∃ wid', removing ((s.after wid next msgs).sites wid').executor t = true := by
  have hstep := hsteps t
  generalize habout : msgs.filter (fun msg => decide (msg.taskID = t)) = about at hstep
  rw [outcome_after habout]
  have hself := hnowhere wid
  rw [sites_after_self] at hself
  cases hstep with
  | kept hsame hremoving =>
    have hbefore (wid' : String) : (s.sites wid').allTasks.get t = none := by
      by_cases hwid : wid' = wid
      · rw [hwid, ← hsame]
        exact hself
      · have hget := hnowhere wid'
        rwa [sites_after_ne hwid] at hget
    rcases h.unlisted t hbefore with hnone | ⟨wid', hremoves⟩
    · exact Or.inl hnone
    · refine Or.inr ⟨wid', ?_⟩
      by_cases hwid : wid' = wid
      · rw [hwid] at hremoves
        rw [hwid, sites_after_self, hremoving]
        exact hremoves
      · rw [sites_after_ne hwid]
        exact hremoves
  | updated old new msg hold hsame hremoving hstatus =>
    rw [hsame] at hself
    cases hself
  | arrived new msg hnowhere' hsame hremoving hstatus =>
    rw [hsame] at hself
    cases hself
  | left hold hnone hremoving => exact Or.inr ⟨wid, by rw [sites_after_self]; exact hremoving⟩
  | removed msg hold hsame hstatus => exact Or.inl (by simp [entryAfter, hstatus])

end

def sentAbout (t : String) (effects : List Effect) : List UpdateMsg :=
  (effects.filterMap sent).filter (fun msg => decide (msg.taskID = t))

theorem sentAbout_append (effects effects' : List Effect) :
    sentAbout t (effects ++ effects') = sentAbout t effects ++ sentAbout t effects' := by
  simp [sentAbout]

theorem sentAbout_updateOf (task : ScheduledTaskInstance) (state : TaskStatus) :
    sentAbout t [updateOf task state] = if task.id = t then [messageOf task state] else [] := by
  by_cases hid : task.id = t
  · simp [sentAbout, sent, updateOf, messageOf, hid]
  · simp [sentAbout, sent, updateOf, hid]

-- each task of a loop is reported once, after something that is no report
theorem sentAbout_loop (start : ScheduledTaskInstance → Effect) (state : TaskStatus)
    (hstart : ∀ task, sent (start task) = none) (tasks : List ScheduledTaskInstance) :
    sentAbout t (tasks.flatMap (fun task => [start task, updateOf task state])) =
      (tasks.filter (fun task => task.id == t)).map (fun task => messageOf task state) := by
  induction tasks with
  | nil => rfl
  | cons task tasks ih =>
    have hfirst : sentAbout t [start task, updateOf task state] =
        sentAbout t [updateOf task state] := by
      simp [sentAbout, hstart]
    rw [List.flatMap_cons, sentAbout_append, ih, hfirst, sentAbout_updateOf]
    by_cases hid : task.id = t
    · simp [hid]
    · simp [hid]

theorem removing_spawn {e : Executor} {effects : List Effect}
    (h : ∀ taskID, .terminateTask taskID false ∈ effects → taskID ≠ t) :
    removing (spawn e effects) t = removing e t := by
  have hnone : (effects.filterMap goroutineOf).any (removes t) = false := by
    refine List.any_eq_false.mpr (fun g hg => ?_)
    obtain ⟨effect, hmem, heq⟩ := List.mem_filterMap.mp hg
    cases effect with
    | launchTask task =>
      obtain rfl := Option.some.inj heq
      simp [removes]
    | terminateTask taskID paused =>
      obtain rfl := Option.some.inj heq
      cases paused with
      | true => simp [removes]
      | false => simpa [removes] using h taskID hmem
    | taskUpdate update => cases heq
  rw [removing, spawn, List.any_append, hnone, Bool.or_false, removing]

theorem sent_onScheduledTask {allTasks : Tasks} (hkeyed : Keyed allTasks)
    (task : ScheduledTaskInstance) : sentAbout t (onScheduledTask allTasks task).2 =
      ((allTasks.get t).filter (overTaken task)).toList.map
          (fun existTask => messageOf existTask .paused) ++
        if task.id = t then [messageOf task (admitted allTasks task).status] else [] := by
  rw [onScheduledTask_effects, sentAbout_append, pauses,
    sentAbout_loop (fun existTask => .terminateTask existTask.id true) .paused (fun _ => rfl),
    filter_values hkeyed]
  congr 1
  by_cases hrun : (admitted allTasks task).status = .running
  · have hlaunch : sentAbout t [.launchTask task, updateOf task .running] =
        sentAbout t [updateOf task .running] := rfl
    rw [if_pos hrun, hlaunch, sentAbout_updateOf, hrun]
  · have hpaused : (admitted allTasks task).status = .paused := by
      simp only [admitted] at hrun ⊢
      split_ifs at hrun ⊢
      · exact absurd rfl hrun
      · rfl
    rw [if_neg hrun, sentAbout_updateOf, hpaused]

theorem no_removal_scheduled (allTasks : Tasks) (task : ScheduledTaskInstance) (taskID : String) :
    .terminateTask taskID false ∉ (onScheduledTask allTasks task).2 := by
  rw [onScheduledTask_effects, pauses]
  intro hmem
  rcases List.mem_append.mp hmem with hmem | hmem
  · obtain ⟨existTask, -, hmem⟩ := List.mem_flatMap.mp hmem
    simp [updateOf] at hmem
  · split_ifs at hmem
    · simp [updateOf] at hmem
    · simp [updateOf] at hmem

theorem taskStep_scheduled (h : Faithful s) {task : ScheduledTaskInstance}
    (hc : ∀ wid, (s.sites wid).allTasks.get task.id = none ∧
      removing (s.sites wid).executor task.id = false) (wid t : String) :
    TaskStep s wid ⟨(onScheduledTask (s.sites wid).allTasks task).1,
      spawn (s.sites wid).executor (onScheduledTask (s.sites wid).allTasks task).2⟩ t
      (sentAbout t (onScheduledTask (s.sites wid).allTasks task).2) := by
  have hremoving : removing (spawn (s.sites wid).executor
      (onScheduledTask (s.sites wid).allTasks task).2) t = removing (s.sites wid).executor t :=
    removing_spawn (fun taskID hmem => absurd hmem (no_removal_scheduled _ _ _))
  rw [sent_onScheduledTask (h.keyed wid)]
  by_cases hid : task.id = t
  · subst hid
    rw [(hc wid).1, if_pos rfl]
    refine .arrived (admitted (s.sites wid).allTasks task) _ hc ?_ ?_ rfl
    · rw [onScheduledTask_eq, GoMap.get_set_self]
    · exact hremoving.trans (hc wid).2
  · have hget : (onScheduledTask (s.sites wid).allTasks task).1.get t =
        ((s.sites wid).allTasks.get t).map (pause task) := by
      rw [onScheduledTask_eq, GoMap.get_set_ne _ _ (Ne.symm hid), GoMap.get_mapVals]
    rw [if_neg hid, List.append_nil]
    cases hold : (s.sites wid).allTasks.get t with
    | none => exact .kept (by rw [hold, hget, hold, Option.map_none]) hremoving
    | some existTask =>
      rw [hold, Option.map_some] at hget
      by_cases hover : overTaken task existTask = true
      · rw [Option.filter_some, if_pos hover]
        refine .updated existTask (pause task existTask) _ hold hget hremoving ?_
        rw [pause, if_pos hover]
        rfl
      · rw [Option.filter_some, if_neg hover]
        refine .kept ?_ hremoving
        rw [hold, hget, pause, if_neg hover]

theorem sent_onTerminateTask {allTasks : Tasks} (hkeyed : Keyed allTasks) {taskID : String}
    {p : ScheduledTaskInstance → Bool} {myTask : ScheduledTaskInstance}
    (hget : allTasks.get taskID = some myTask) :
    sentAbout t (stops taskID myTask ++ (resumeAll (allTasks.delete myTask.id) p).2) =
      if t = taskID then []
      else ((allTasks.get t).filter p).toList.map (fun task => messageOf task .running) := by
  have hid : myTask.id = taskID := hkeyed taskID myTask hget
  have hrest : Keyed (allTasks.delete myTask.id) :=
    fun j task hj => hkeyed j task (GoMap.get_of_get_delete hj).2
  have hstops : sentAbout t (stops taskID myTask) = [] := by
    unfold stops
    split_ifs
    · rfl
    · rfl
  rw [sentAbout_append, hstops, List.nil_append]
  simp only [resumeAll]
  rw [sentAbout_loop .launchTask .running (fun _ => rfl), filter_values hrest, GoMap.get_delete,
    hid]
  split_ifs
  · rfl
  · rfl

theorem no_removal_resumed {allTasks : Tasks} {p : ScheduledTaskInstance → Bool}
    (taskID : String) : .terminateTask taskID false ∉ (resumeAll allTasks p).2 := by
  intro hmem
  obtain ⟨task, -, hmem⟩ := List.mem_flatMap.mp hmem
  simp [updateOf] at hmem

theorem taskStep_terminated (h : Faithful s) {taskID : String}
    (hc : ∀ task, (s.sites wid).allTasks.get taskID = some task → task.status = .running)
    (t : String) :
    TaskStep s wid ⟨(onTerminateTask (s.sites wid).allTasks taskID).1,
      spawn (s.sites wid).executor (onTerminateTask (s.sites wid).allTasks taskID).2⟩ t
      (sentAbout t (onTerminateTask (s.sites wid).allTasks taskID).2) := by
  have hkeyed := h.keyed wid
  cases hget : (s.sites wid).allTasks.get taskID with
  | none =>
    have hnothing : onTerminateTask (s.sites wid).allTasks taskID =
        ((s.sites wid).allTasks, []) := by
      simp [onTerminateTask, hget]
    rw [hnothing]
    exact .kept rfl (removing_spawn (fun k hmem => by cases hmem))
  | some myTask =>
    obtain ⟨p, -, heq⟩ := onTerminateTask_resumes hget
    have hid : myTask.id = taskID := hkeyed taskID myTask hget
    have hrunning : (myTask.status == .running) = true := by
      rw [hc myTask hget]
      rfl
    rw [heq, sent_onTerminateTask hkeyed hget]
    have hnext : (resumeAll ((s.sites wid).allTasks.delete myTask.id) p).1.get t =
        if t = taskID then none else ((s.sites wid).allTasks.get t).map (resume p) := by
      rw [resumeAll, GoMap.get_mapVals, GoMap.get_delete, hid]
      split_ifs
      · rfl
      · rfl
    by_cases ht : t = taskID
    · subst ht
      rw [if_pos rfl] at hnext ⊢
      refine .left (by rw [hget]; exact Option.some_ne_none _) hnext ?_
      refine List.any_eq_true.mpr ⟨.lookUp t false, ?_, by simp [removes]⟩
      refine List.mem_append_right _ (List.mem_filterMap.mpr ⟨.terminateTask t false, ?_, rfl⟩)
      simp [stops, hrunning]
    · have hremoving : removing (spawn (s.sites wid).executor (stops taskID myTask ++
          (resumeAll ((s.sites wid).allTasks.delete myTask.id) p).2)) t =
          removing (s.sites wid).executor t := by
        refine removing_spawn (fun k hmem => ?_)
        rcases List.mem_append.mp hmem with hmem | hmem
        · have hk : k = taskID := by simpa [stops, hrunning] using hmem
          rw [hk]
          exact Ne.symm ht
        · exact absurd hmem (no_removal_resumed k)
      rw [if_neg ht] at hnext ⊢
      cases hold : (s.sites wid).allTasks.get t with
      | none => exact .kept (by rw [hold, hnext, hold, Option.map_none]) hremoving
      | some task =>
        rw [hold, Option.map_some] at hnext
        by_cases hresume : p task = true
        · rw [Option.filter_some, if_pos hresume]
          refine .updated task (resume p task) _ hold hnext hremoving ?_
          rw [resume, if_pos hresume]
          rfl
        · rw [Option.filter_some, if_neg hresume]
          refine .kept ?_ hremoving
          rw [hold, hnext, resume, if_neg hresume]

theorem removing_set {e : Executor} {i : Nat} {g g' : Goroutine}
    (hg : e.goroutines[i]? = some g) (hsame : removes t g' = removes t g) :
    (e.goroutines.set i g').any (removes t) = removing e t := by
  obtain ⟨before, after, -, hsplit, hset, -⟩ := Pool.split_of_getElem? hg
  rw [removing, hset, hsplit]
  simp [hsame]

theorem removing_eraseIdx {e : Executor} {i : Nat} {g : Goroutine}
    (hg : e.goroutines[i]? = some g) (hnot : removes t g = false) :
    (e.goroutines.eraseIdx i).any (removes t) = removing e t := by
  obtain ⟨before, after, -, hsplit, -, herase⟩ := Pool.split_of_getElem? hg
  rw [removing, herase, hsplit]
  simp [hnot]

-- what a goroutine reports between two of its steps
def reports (e e' : Executor) : List UpdateMsg :=
  (e'.calls.drop e.calls.length).filterMap reported

theorem reports_append {e e' : Executor} {calls : List Call} (h : e'.calls = e.calls ++ calls) :
    reports e e' = calls.filterMap reported := by
  rw [reports, h, List.drop_left]

theorem reports_same {e e' : Executor} (h : e'.calls = e.calls) : reports e e' = [] :=
  reports_append (h.trans (List.append_nil _).symm)

theorem reports_subscribeCalls {e e' : Executor} {taskCtx : TaskContext}
    {inputs : List InputStream}
    (h : e'.calls = e.calls ++ subscribeCalls taskCtx inputs) : reports e e' = [] := by
  rw [reports_append h]
  simp [subscribeCalls, reported]

theorem reports_cleanUpCalls {e e' : Executor} {taskCtx : TaskContext}
    {termination : Terminating} (h : e'.calls = e.calls ++ cleanUpCalls taskCtx termination) :
    reports e e' = [⟨termination.taskID, termination.topologyName, termination.taskName,
      termination.serviceIntentID, if termination.paused then "paused" else "removed"⟩] := by
  rw [reports_append h, cleanUpCalls, List.filterMap_append, List.filterMap_append]
  have hunsubscribes : (taskCtx.subscriptions.map Call.unsubscribe).filterMap reported = [] := by
    simp [reported]
  have hdeletes : (taskCtx.outputStreams.map Call.deleteContext).filterMap reported = [] := by
    simp [reported]
  rw [hunsubscribes, hdeletes]
  rfl

theorem taskStep_silent {e' : Executor} (hreports : reports (s.sites wid).executor e' = [])
    (hremoving : removing e' t = removing (s.sites wid).executor t) :
    TaskStep s wid ⟨(s.sites wid).allTasks, e'⟩ t
      ((reports (s.sites wid).executor e').filter (fun msg => decide (msg.taskID = t))) := by
  rw [hreports]
  exact .kept rfl hremoving

theorem taskStep_cleanUp {i : Nat} {answers : Answers} {termination : Terminating}
    (hg : (s.sites wid).executor.goroutines[i]? = some (.cleanUp termination))
    (hc : termination.paused = true → ∃ task,
      (s.sites wid).allTasks.get termination.taskID = some task ∧ task.status = .paused)
    (t : String) :
    TaskStep s wid ⟨(s.sites wid).allTasks,
        runGoroutine (s.sites wid).executor i answers (.cleanUp termination)⟩ t
      ((reports (s.sites wid).executor
        (runGoroutine (s.sites wid).executor i answers (.cleanUp termination))).filter
          (fun msg => decide (msg.taskID = t))) := by
  simp only [runGoroutine]
  split
  case h_1 hnone => exact taskStep_silent (reports_same rfl) rfl
  case h_2 taskCtx hget =>
    rw [reports_cleanUpCalls rfl]
    by_cases hid : termination.taskID = t
    · simp only [hid, decide_true, List.filter_cons_of_pos, List.filter_nil]
      cases hpaused : termination.paused with
      | true =>
        obtain ⟨task, hold, hstatus⟩ := hc hpaused
        rw [hid] at hold
        refine .updated task task _ hold hold ?_ ?_
        · exact removing_eraseIdx hg (by simp [removes, hpaused])
        · rw [hstatus]
          rfl
      | false =>
        refine .removed _ ?_ rfl rfl
        exact List.any_eq_true.mpr ⟨_, List.mem_of_getElem? hg, by simp [removes, hid, hpaused]⟩
    · have hother : removes t (.cleanUp termination) = false := by simp [removes, hid]
      rw [List.filter_cons_of_neg (by simpa using hid), List.filter_nil]
      exact .kept rfl (removing_eraseIdx hg hother)

theorem taskStep_run {i : Nat} {answers : Answers} {g : Goroutine}
    (hg : (s.sites wid).executor.goroutines[i]? = some g)
    (hc : Orderly s (.site wid (.run i answers))) (t : String) :
    TaskStep s wid ⟨(s.sites wid).allTasks, runGoroutine (s.sites wid).executor i answers g⟩ t
      ((reports (s.sites wid).executor
        (runGoroutine (s.sites wid).executor i answers g)).filter
          (fun msg => decide (msg.taskID = t))) := by
  cases g with
  | startTask task =>
    simp only [runGoroutine]
    split
    · exact taskStep_silent (reports_same rfl) (removing_eraseIdx hg rfl)
    · exact taskStep_silent (reports_same rfl) (removing_set hg rfl)
  | register task containerID refURL =>
    exact taskStep_silent (reports_subscribeCalls rfl) (removing_set hg rfl)
  | delayedInputs taskInstanceID =>
    simp only [runGoroutine, handleDelayedAddInputCommands]
    split
    · exact taskStep_silent (reports_same rfl) (removing_eraseIdx hg rfl)
    · split
      · exact taskStep_silent (reports_same rfl) (removing_eraseIdx hg rfl)
      · exact taskStep_silent (reports_same rfl) (removing_eraseIdx hg rfl)
      · exact taskStep_silent (reports_subscribeCalls rfl) (removing_eraseIdx hg rfl)
  | lookUp taskID paused =>
    simp only [runGoroutine]
    split
    case h_1 hnone =>
      cases paused with
      | true => exact taskStep_silent (reports_same rfl) (removing_eraseIdx hg (by simp [removes]))
      | false => exact absurd hnone (hc.1 taskID hg)
    case h_2 taskCtx hget => exact taskStep_silent (reports_same rfl) (removing_set hg rfl)
  | stopTask termination => exact taskStep_silent (reports_same rfl) (removing_set hg rfl)
  | cleanUp termination => exact taskStep_cleanUp hg (hc.2 termination hg) t

theorem faithful_after (h : Faithful s) {next : WorkerSystem} {msgs : List UpdateMsg}
    (hsteps : ∀ t, TaskStep s wid next t (msgs.filter (fun msg => decide (msg.taskID = t))))
    (hkeyed : Keyed next.allTasks) : Faithful (s.after wid next msgs) where
  keyed wid' := by
    by_cases hwid : wid' = wid
    · rw [hwid, sites_after_self]
      exact hkeyed
    · rw [sites_after_ne hwid]
      exact h.keyed wid'
  single := single_after h hsteps
  listed := listed_after h hsteps
  left := left_after h hsteps
  unlisted := unlisted_after h hsteps

theorem faithful_site (h : Faithful s) {event : SiteEvent} {next : Deployment}
    (hc : Orderly s (.site wid event)) (hs : step s (.site wid event) = some next) :
    Faithful next := by
  obtain ⟨⟨site, msgs⟩, hsite, rfl⟩ := Option.map_eq_some_iff.mp hs
  unfold siteStep at hsite
  split_ifs at hsite
  cases event with
  | scheduled task =>
    obtain ⟨rfl, rfl⟩ := Prod.mk.inj (Option.some.inj hsite)
    exact faithful_after h (taskStep_scheduled h hc wid) (keyed_onScheduledTask (h.keyed wid))
  | terminated taskID =>
    obtain ⟨rfl, rfl⟩ := Prod.mk.inj (Option.some.inj hsite)
    exact faithful_after h (taskStep_terminated h hc) (keyed_onTerminateTask (h.keyed wid))
  | run i answers =>
    obtain ⟨g, hg, heq⟩ := Option.map_eq_some_iff.mp hsite
    obtain ⟨rfl, rfl⟩ := Prod.mk.inj heq
    exact faithful_after h (taskStep_run hg hc) (h.keyed wid)

theorem faithful_arrive (h : Faithful s) {i : Nat} {next : Deployment}
    (hc : Orderly s (.arrive i)) (hs : step s (.arrive i) = some next) : Faithful next := by
  obtain ⟨msg, hmsg, rfl⟩ := Option.map_eq_some_iff.mp hs
  have houtcome (t : String) : Deployment.outcome { s with
      underWay := s.underWay.eraseIdx i
      taskMap := onTaskUpdate s.taskMap msg } t = s.outcome t := by
    rw [Deployment.outcome, get_onTaskUpdate]
    exact Inbox.outcome_arrive hmsg (hc msg hmsg)
  refine ⟨h.keyed, h.single, fun t wid task hget => ?_, h.left, fun t hnowhere => ?_⟩
  · rw [houtcome]
    exact h.listed t wid task hget
  · rw [houtcome]
    exact h.unlisted t hnowhere

theorem faithful_step (h : Faithful s) {event : Event} {next : Deployment}
    (hc : Orderly s event) (hs : step s event = some next) : Faithful next := by
  cases event with
  | site wid event => exact faithful_site h hc hs
  | arrive i => exact faithful_arrive h hc hs

theorem task_map_exact {events : List Event} (hm : Meets step Orderly .init events) :
    Always step (fun s => Quiescent s → Exact s) .init events :=
  always_of_meets (I := fun _ s => Faithful s) hm faithful_init
    (fun _ _ _ _ _ _ h hc hs => faithful_step h hc hs) (fun _ _ h => exact_of_quiescent h)

def counter : ScheduledTaskInstance := exampleTask "counter" false 0

def runFirst (wid : String) : Event := .site wid (.run 0 noAnswers)

def launchAt (wid : String) : List Event :=
  [.site wid (.scheduled counter), runFirst wid, runFirst wid, runFirst wid]

def terminateAt (wid : String) : List Event := [runFirst wid, runFirst wid, runFirst wid]

-- the new worker has the task before the old one has stopped it
def hastyMigration : List Event :=
  launchAt "worker.1" ++ [.arrive 0, .site "worker.1" (.terminated "counter")] ++
    launchAt "worker.2" ++ terminateAt "worker.1" ++ [.arrive 0, .arrive 0]

theorem hastyMigration_unlisted :
    ¬ Always step (fun s => Quiescent s → Exact s) .init hastyMigration := by
  have hrun : ∃ s, exec step .init hastyMigration = some s ∧ Quiescent s ∧
      s.taskMap.get "counter" = none ∧ Deployed s "counter" "worker.2" "running" := by
    refine ⟨_, rfl, ⟨rfl, fun wid => ?_⟩, rfl, ⟨_, rfl, rfl⟩⟩
    by_cases hold : wid = "worker.1"
    · subst hold
      rfl
    · by_cases hnew : wid = "worker.2"
      · subst hnew
        rfl
      · simp only [ne_eq, hold, hnew, not_false_eq_true, Function.update_of_ne]
        rfl
  obtain ⟨s, hexec, hquiescent, hnone, hdeployed⟩ := hrun
  intro h
  obtain ⟨entry, hentry, -⟩ := (h _ s (List.prefix_refl _) hexec hquiescent "counter" "worker.2"
    "running").mpr hdeployed
  rw [hnone] at hentry
  cases hentry

def orderlyMigration : List Event :=
  launchAt "worker.1" ++ [.site "worker.1" (.terminated "counter")] ++ terminateAt "worker.1" ++
    launchAt "worker.2" ++ [.arrive 0, .arrive 0, .arrive 0]

theorem orderlyMigration_orderly : Meets step Orderly .init orderlyMigration := by
  have hfirst : ∀ msg : JsonMsg, ∀ older ∈ ([] : List JsonMsg), older.taskID ≠ msg.taskID := nofun
  refine meets_step (fun wid => ⟨rfl, rfl⟩) rfl ?_
  refine meets_step ⟨nofun, nofun⟩ rfl ?_
  refine meets_step ⟨nofun, nofun⟩ rfl ?_
  refine meets_step ⟨nofun, nofun⟩ rfl ?_
  refine meets_step (fun task h => ?_) rfl ?_
  · obtain rfl := Option.some.inj h
    rfl
  refine meets_step ⟨fun taskID h => ?_, nofun⟩ rfl ?_
  · obtain ⟨rfl, -⟩ := Goroutine.lookUp.inj (Option.some.inj h)
    exact nofun
  refine meets_step ⟨nofun, nofun⟩ rfl ?_
  refine meets_step ⟨nofun, fun termination h hpaused => ?_⟩ rfl ?_
  · obtain rfl := Goroutine.cleanUp.inj (Option.some.inj h)
    cases hpaused
  refine meets_step (fun wid => ?_) rfl ?_
  · by_cases hold : wid = "worker.1"
    · subst hold
      exact ⟨rfl, rfl⟩
    · simp only [ne_eq, hold, not_false_eq_true, Function.update_of_ne]
      exact ⟨rfl, rfl⟩
  refine meets_step ⟨nofun, nofun⟩ rfl ?_
  refine meets_step ⟨nofun, nofun⟩ rfl ?_
  refine meets_step ⟨nofun, nofun⟩ rfl ?_
  refine meets_step (fun msg _ => hfirst msg) rfl ?_
  refine meets_step (fun msg _ => hfirst msg) rfl ?_
  exact meets_singleton.mpr (fun msg _ => hfirst msg)

theorem orderlyMigration_listed :
    ∃ s, exec step .init orderlyMigration = some s ∧ Exact s ∧
      Listed s.taskMap "counter" "worker.2" "running" := by
  have hrun : ∃ s, exec step .init orderlyMigration = some s ∧ Quiescent s ∧
      Deployed s "counter" "worker.2" "running" := by
    refine ⟨_, rfl, ⟨rfl, fun wid => ?_⟩, ⟨_, rfl, rfl⟩⟩
    by_cases hold : wid = "worker.1"
    · subst hold
      rfl
    · by_cases hnew : wid = "worker.2"
      · subst hnew
        rfl
      · simp only [ne_eq, hold, hnew, not_false_eq_true, Function.update_of_ne]
        rfl
  obtain ⟨s, hexec, hquiescent, hdeployed⟩ := hrun
  have hexact : Exact s :=
    task_map_exact orderlyMigration_orderly _ s (List.prefix_refl _) hexec hquiescent
  exact ⟨s, hexec, hexact, (hexact "counter" "worker.2" "running").mpr hdeployed⟩

end FogFlow.Designer
