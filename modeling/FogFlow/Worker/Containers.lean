import FogFlow.Library.Launching
import FogFlow.Worker.Dereferences
import FogFlow.Worker.TaskList

namespace FogFlow.Worker

open Datamodel Execution Launching

structure WorkerSystem where
  allTasks : Tasks
  executor : Executor

def WorkerSystem.init : WorkerSystem := ⟨∅, .init⟩

def goroutineOf : Effect → Option Goroutine
  | .launchTask task => some (.startTask task)
  | .terminateTask taskID paused => some (.lookUp taskID paused)
  | .taskUpdate _ => none

def spawn (e : Executor) (effects : List Effect) : Executor :=
  { e with goroutines := e.goroutines ++ effects.filterMap goroutineOf }

inductive WorkerLabel where
  | scheduled (task : ScheduledTaskInstance)
  | terminated (taskID : String)
  | run (i : Nat) (refURL : String) (subIDs : Nat → Option String)

-- every StartTask succeeds
def workerStep (s : WorkerSystem) (label : WorkerLabel) : Option WorkerSystem :=
  if s.executor.crashed then none
  else
    match label with
    | .scheduled task =>
        let handled := onScheduledTask s.allTasks task
        some ⟨handled.1, spawn s.executor handled.2⟩
    | .terminated taskID =>
        let handled := onTerminateTask s.allTasks taskID
        some ⟨handled.1, spawn s.executor handled.2⟩
    | .run i refURL subIDs =>
        (s.executor.goroutines[i]?).map (fun goroutine =>
          ⟨s.allTasks, runGoroutine s.executor i ⟨some refURL, subIDs⟩ goroutine⟩)

def runs (allTasks : Tasks) (taskID : String) : Bool :=
  (allTasks.get taskID).any (fun task => task.status == .running)

-- the containers started and not stopped, by the task they were started for
def containersOf (e : Executor) (taskID : String) : List Nat :=
  (e.containers.filter (fun container => container.2 == taskID)).map Prod.fst

def Accounted (s : WorkerSystem) : Prop :=
  s.executor.goroutines = [] → ∀ taskID,
    (containersOf s.executor taskID).length = if runs s.allTasks taskID = true then 1 else 0

def Goroutine.launches (taskID : String) : Goroutine → Bool
  | .startTask task => task.id == taskID
  | .register task _ _ => task.id == taskID
  | _ => false

def Goroutine.terminates (taskID : String) : Goroutine → Bool
  | .lookUp id _ => id == taskID
  | .stopTask terminating => terminating.taskID == taskID
  | .cleanUp terminating => terminating.taskID == taskID
  | _ => false

def InOrder (s : WorkerSystem) : WorkerLabel → Prop
  | .scheduled task => ∀ existTask, s.allTasks.get task.id = some existTask →
      (pause task existTask).status ≠ .running
  | .terminated taskID => ∀ myTask, s.allTasks.get taskID = some myTask →
      myTask.isExclusive = true →
      (∀ t ∈ (s.allTasks.delete myTask.id).values, t.isExclusive = true → t.status ≠ .running) →
      (searchUrgent (s.allTasks.delete myTask.id).values).1 = true →
      ∀ t ∈ (s.allTasks.delete myTask.id).values,
        t.priorityLevel = (searchUrgent (s.allTasks.delete myTask.id).values).2 →
        t.status ≠ .running
  | .run i _ _ =>
      (∀ task containerID refURL,
        s.executor.goroutines[i]? = some (.register task containerID refURL) →
        ∀ g ∈ s.executor.goroutines.take i, g.terminates task.id = false) ∧
      (∀ taskID paused, s.executor.goroutines[i]? = some (.lookUp taskID paused) →
        (∀ g ∈ s.executor.goroutines.take i, g.launches taskID = false) ∧
        taskID ∉ s.executor.terminations)

def opOf (taskID : String) : Goroutine → Option (Op Nat)
  | .startTask task => if task.id = taskID then some .start else none
  | .register task containerID _ =>
      if task.id = taskID then some (.register containerID) else none
  | .delayedInputs _ => none
  | .lookUp id _ => if id = taskID then some .lookUp else none
  | .stopTask terminating =>
      if terminating.taskID = taskID then some (.stop terminating.containerID) else none
  | .cleanUp terminating =>
      if terminating.taskID = taskID then some (.cleanUp terminating.containerID) else none

-- one task seen as a slot for a container
def slotOf (e : Executor) (taskID : String) : Slot Nat where
  entry := (e.taskInstances.get taskID).map TaskContext.containerID
  live := containersOf e taskID
  ops := e.goroutines.filterMap (opOf taskID)

structure Tracked (s : WorkerSystem) : Prop where
  keyed : Keyed s.allTasks
  alive : s.executor.crashed = false
  unqueued : ∀ taskID, s.executor.delayedAddInputCommands.get taskID = none
  slots : ∀ taskID, Good (runs s.allTasks taskID) (slotOf s.executor taskID)
  named : (s.executor.containers.map Prod.fst).Nodup
  started : ∀ container ∈ s.executor.containers, container.1 < s.executor.started
  stored : ∀ taskID taskCtx, s.executor.taskInstances.get taskID = some taskCtx →
    taskCtx.containerID < s.executor.started
  registering : ∀ task containerID refURL,
    .register task containerID refURL ∈ s.executor.goroutines → containerID < s.executor.started

theorem tracked_init : Tracked .init where
  keyed := keyed_empty
  alive := rfl
  unqueued := by simp [WorkerSystem.init, Executor.init]
  slots taskID := good_empty
  named := .nil
  started := by simp [WorkerSystem.init, Executor.init]
  stored := by simp [WorkerSystem.init, Executor.init]
  registering := by simp [WorkerSystem.init, Executor.init]

variable {s t : WorkerSystem} {e : Executor}

theorem opOf_eq_register {taskID : String} {g : Goroutine} {c : Nat}
    (h : opOf taskID g = some (.register c)) :
    ∃ task refURL, g = .register task c refURL ∧ task.id = taskID := by
  cases g with
  | register task containerID refURL =>
    simp only [opOf] at h
    split_ifs at h with hid
    obtain rfl := Op.register.inj (Option.some.inj h)
    exact ⟨task, refURL, rfl, hid⟩
  | delayedInputs _ => cases h
  | _ =>
    simp only [opOf] at h
    split_ifs at h
    cases h

theorem opOf_opened {taskID : String} {g : Goroutine} {op : Op Nat} (h : opOf taskID g = some op)
    (hop : op.opened ≠ none) : g.terminating = some taskID := by
  cases g with
  | delayedInputs _ => cases h
  | _ =>
    simp only [opOf] at h
    split_ifs at h with hid
    obtain rfl := Option.some.inj h
    simp_all [Op.opened, Goroutine.terminating]

theorem launches_of_not_terminates {taskID : String} {g : Goroutine} {op : Op Nat}
    (h : opOf taskID g = some op) (hg : g.terminates taskID = false) : op.launches = true := by
  cases g with
  | delayedInputs _ => cases h
  | _ =>
    simp only [opOf] at h
    split_ifs at h with hid
    obtain rfl := Option.some.inj h
    simp_all [Op.launches, Goroutine.terminates]

theorem not_launches {taskID : String} {g : Goroutine} {op : Op Nat}
    (h : opOf taskID g = some op) (hg : g.launches taskID = false) : op.launches = false := by
  cases g with
  | delayedInputs _ => cases h
  | _ =>
    simp only [opOf] at h
    split_ifs at h with hid
    obtain rfl := Option.some.inj h
    simp_all [Op.launches, Goroutine.launches]

theorem mem_containersOf {taskID : String} {c : Nat} :
    c ∈ containersOf e taskID ↔ (c, taskID) ∈ e.containers := by
  simp [containersOf]

theorem containersOf_append {taskID : String} {containers : List (Nat × String)} {c : Nat}
    {id : String} (he : e.containers = containers ++ [(c, id)]) :
    containersOf e taskID =
      containersOf { e with containers := containers } taskID ++ if id = taskID then [c] else [] := by
  unfold containersOf
  rw [he]
  by_cases hid : id = taskID <;> simp [hid]

theorem containersOf_filter {taskID : String} {c : Nat} {goroutines : List Goroutine} :
    containersOf { e with
        containers := e.containers.filter (fun container => container.1 != c)
        goroutines := goroutines } taskID =
      (containersOf e taskID).filter (fun d => d != c) := by
  unfold containersOf
  rw [List.filter_map, List.filter_filter, List.filter_filter]
  simp only [Function.comp_def, Bool.and_comm]

theorem filter_ne_of_not_mem {α : Type} [DecidableEq α] {a : α} {xs : List α} (h : a ∉ xs) :
    xs.filter (fun x => x != a) = xs := by
  refine List.filter_eq_self.mpr (fun x hx => ?_)
  rw [bne_iff_ne]
  rintro rfl
  exact h hx

-- a step of one task leaves the slots of the others alone
theorem good_other {e' : Executor} {wanted : Bool} {taskID : String}
    (h : Good wanted (slotOf e taskID))
    (hentry : e'.taskInstances.get taskID = e.taskInstances.get taskID)
    (hlive : containersOf e' taskID = containersOf e taskID)
    (hops : e'.goroutines.filterMap (opOf taskID) = e.goroutines.filterMap (opOf taskID)) :
    Good wanted (slotOf e' taskID) := by
  unfold slotOf
  rw [hentry, hlive, hops]
  exact h

theorem started_of_registering (h : Tracked s) {i c : Nat} {g : Goroutine}
    {task : ScheduledTaskInstance} {refURL : String}
    (hg : ∀ u d url, g ≠ .register u d url)
    (hmem : .register task c refURL ∈ s.executor.goroutines.set i g) :
    c < s.executor.started := by
  rcases List.mem_or_eq_of_mem_set hmem with hmem | heq
  · exact h.registering task c refURL hmem
  · exact absurd heq.symm (hg task c refURL)

theorem tracked_startTask (h : Tracked s) {i : Nat} {answers : Answers}
    {task : ScheduledTaskInstance} {refURL : String} (hurl : answers.refURL = some refURL)
    (hg : s.executor.goroutines[i]? = some (.startTask task)) :
    Tracked ⟨s.allTasks, runGoroutine s.executor i answers (.startTask task)⟩ := by
  obtain ⟨before, after, -, hsplit, hset, -⟩ := Pool.split_of_getElem? hg
  simp only [runGoroutine, hurl]
  refine ⟨h.keyed, h.alive, h.unqueued, fun taskID => ?_, ?_, fun container hc => ?_,
    fun k ctx hk => (h.stored k ctx hk).trans (Nat.lt_succ_self _), fun u c url hu => ?_⟩
  · have hslot := h.slots taskID
    by_cases hid : task.id = taskID
    · unfold slotOf at hslot ⊢
      rw [containersOf_append rfl]
      dsimp only
      rw [hset]
      rw [hsplit] at hslot
      simp only [List.filterMap_append, List.filterMap_cons, opOf, hid, if_true] at hslot ⊢
      refine good_start hslot ?_ ?_ ?_
      · intro hmem
        exact (h.started _ (mem_containersOf.mp hmem)).false
      · intro hentry
        obtain ⟨ctx, hctx, hc⟩ := Option.map_eq_some_iff.mp hentry
        exact (hc ▸ h.stored taskID ctx hctx).false
      · rw [← List.filterMap_append]
        intro hmem
        obtain ⟨g, hmem, hop⟩ := List.mem_filterMap.mp hmem
        obtain ⟨u, url, rfl, -⟩ := opOf_eq_register hop
        have hin : .register u s.executor.started url ∈ s.executor.goroutines := by
          rw [hsplit]
          exact mem_insert hmem
        exact (h.registering u _ url hin).false
    · refine good_other hslot rfl ?_ (Pool.filterMap_set hg (by simp [opOf, hid]))
      rw [containersOf_append rfl, if_neg hid, List.append_nil]
      rfl
  · rw [List.map_append, List.nodup_append]
    refine ⟨h.named, by simp, ?_⟩
    rintro a ha b hb rfl
    obtain ⟨container, hc, rfl⟩ := List.mem_map.mp ha
    have hlt := h.started container hc
    simp only [List.map_cons, List.map_nil, List.mem_singleton] at hb
    omega
  · rcases List.mem_append.mp hc with hc | hc
    · exact (h.started container hc).trans (Nat.lt_succ_self _)
    · rw [List.mem_singleton.mp hc]
      exact Nat.lt_succ_self _
  · rcases List.mem_or_eq_of_mem_set hu with hu | hu
    · exact (h.registering u c url hu).trans (Nat.lt_succ_self _)
    · cases hu
      exact Nat.lt_succ_self _

@[simp] theorem subscribed_containerID (taskCtx : TaskContext) (inputStream : InputStream)
    (answer : Option String) :
    (subscribed taskCtx inputStream answer).containerID = taskCtx.containerID := by
  unfold subscribed
  split <;> rfl

@[simp] theorem subscribeInputs_containerID (taskCtx : TaskContext) (inputs : List InputStream)
    (answers : Nat → Option String) :
    (subscribeInputs taskCtx inputs answers).containerID = taskCtx.containerID := by
  unfold subscribeInputs
  refine List.foldlRecOn (motive := fun ctx : TaskContext => ctx.containerID = taskCtx.containerID)
    _ _ rfl (fun ctx hctx input _ => ?_)
  rw [subscribed_containerID, hctx]

theorem tracked_register (h : Tracked s) {i : Nat} {answers : Answers}
    {task : ScheduledTaskInstance} {containerID : Nat} {refURL : String}
    (hg : s.executor.goroutines[i]? = some (.register task containerID refURL))
    (horder : ∀ g ∈ s.executor.goroutines.take i, g.terminates task.id = false) :
    Tracked ⟨s.allTasks, runGoroutine s.executor i answers (.register task containerID refURL)⟩ := by
  obtain ⟨before, after, hbefore, hsplit, hset, -⟩ := Pool.split_of_getElem? hg
  rw [← hbefore] at horder
  simp only [runGoroutine]
  refine ⟨h.keyed, h.alive, h.unqueued, fun taskID => ?_, h.named, h.started, fun k ctx hk => ?_,
    fun u c url hu => started_of_registering h (by simp) hu⟩
  · have hslot := h.slots taskID
    by_cases hid : task.id = taskID
    · unfold slotOf at hslot ⊢
      dsimp only
      rw [hset, GoMap.get_set, if_pos hid.symm]
      rw [hsplit] at hslot
      simp only [List.filterMap_append, List.filterMap_cons, opOf, hid, if_true,
        Option.map_some, subscribeInputs_containerID, taskContext] at hslot ⊢
      refine good_register hslot (fun op hop => ?_)
      obtain ⟨g, hmem, hop⟩ := List.mem_filterMap.mp hop
      exact launches_of_not_terminates hop (hid ▸ horder g hmem)
    · exact good_other hslot (GoMap.get_set_ne _ _ (Ne.symm hid)) rfl
        (Pool.filterMap_set hg (by simp [opOf, hid]))
  · dsimp only at hk
    rw [GoMap.get_set] at hk
    split_ifs at hk
    · rw [← Option.some.inj hk]
      simpa [taskContext] using h.registering task containerID refURL (List.mem_of_getElem? hg)
    · exact h.stored k ctx hk

theorem tracked_delayedInputs (h : Tracked s) {i : Nat} {answers : Answers} {taskID : String}
    (hg : s.executor.goroutines[i]? = some (.delayedInputs taskID)) :
    Tracked ⟨s.allTasks, runGoroutine s.executor i answers (.delayedInputs taskID)⟩ := by
  simp only [runGoroutine, handleDelayedAddInputCommands, h.unqueued]
  exact ⟨h.keyed, h.alive, h.unqueued,
    fun k => good_other (h.slots k) rfl rfl (Pool.filterMap_eraseIdx hg rfl), h.named, h.started,
    h.stored, fun u c url hu => h.registering u c url (List.mem_of_mem_eraseIdx hu)⟩

theorem tracked_lookUp (h : Tracked s) {i : Nat} {answers : Answers} {taskID : String}
    {paused : Bool} (hg : s.executor.goroutines[i]? = some (.lookUp taskID paused))
    (horder : ∀ g ∈ s.executor.goroutines.take i, g.launches taskID = false)
    (hfree : taskID ∉ s.executor.terminations) :
    Tracked ⟨s.allTasks, runGoroutine s.executor i answers (.lookUp taskID paused)⟩ := by
  obtain ⟨before, after, hbefore, hsplit, hset, herase⟩ := Pool.split_of_getElem? hg
  rw [← hbefore] at horder
  have hlaunches (op : Op Nat) (hop : op ∈ before.filterMap (opOf taskID)) :
      op.launches = false := by
    obtain ⟨g, hmem, hop⟩ := List.mem_filterMap.mp hop
    exact not_launches hop (horder g hmem)
  simp only [runGoroutine]
  split
  case h_1 hget =>
    refine ⟨h.keyed, h.alive, h.unqueued, fun k => ?_, h.named, h.started, h.stored,
      fun u c url hu => h.registering u c url (List.mem_of_mem_eraseIdx hu)⟩
    have hslot := h.slots k
    by_cases hid : taskID = k
    · subst hid
      unfold slotOf at hslot ⊢
      dsimp only
      rw [herase]
      rw [hsplit] at hslot
      simp only [List.filterMap_append, List.filterMap_cons, opOf, if_true, hget,
        Option.map_none] at hslot ⊢
      exact good_found_none hslot hlaunches
    · exact good_other hslot rfl rfl (Pool.filterMap_eraseIdx hg (by simp [opOf, hid]))
  case h_2 taskCtx hget =>
    refine ⟨h.keyed, h.alive, h.unqueued, fun k => ?_, h.named, h.started, h.stored,
      fun u c url hu => started_of_registering h (by simp) hu⟩
    have hslot := h.slots k
    by_cases hid : taskID = k
    · subst hid
      unfold slotOf at hslot ⊢
      dsimp only
      rw [hset]
      rw [hsplit] at hslot
      simp only [List.filterMap_append, List.filterMap_cons, opOf, if_true, hget,
        Option.map_some] at hslot ⊢
      refine good_found hslot hlaunches (fun op hop => ?_)
      rw [← List.filterMap_append] at hop
      obtain ⟨g, hmem, hop⟩ := List.mem_filterMap.mp hop
      by_contra hne
      refine hfree (List.mem_filterMap.mpr ⟨g, ?_, opOf_opened hop hne⟩)
      rw [hsplit]
      exact mem_insert hmem
    · exact good_other hslot rfl rfl (Pool.filterMap_set hg (by simp [opOf, hid]))

theorem tracked_stopTask (h : Tracked s) {i : Nat} {answers : Answers} {terminating : Terminating}
    (hg : s.executor.goroutines[i]? = some (.stopTask terminating)) :
    Tracked ⟨s.allTasks, runGoroutine s.executor i answers (.stopTask terminating)⟩ := by
  obtain ⟨before, after, -, hsplit, hset, -⟩ := Pool.split_of_getElem? hg
  have hmine := h.slots terminating.taskID
  unfold slotOf at hmine
  rw [hsplit] at hmine
  simp only [List.filterMap_append, List.filterMap_cons, opOf, if_true] at hmine
  simp only [runGoroutine]
  refine ⟨h.keyed, h.alive, h.unqueued, fun k => ?_, ?_, fun container hc => ?_, h.stored,
    fun u c url hu => started_of_registering h (by simp) hu⟩
  · by_cases hid : terminating.taskID = k
    · subst hid
      unfold slotOf
      rw [containersOf_filter]
      dsimp only
      rw [hset]
      simp only [List.filterMap_append, List.filterMap_cons, opOf, if_true]
      exact good_stop hmine
    · -- the engine stops one container only, and that one is of another task
      have hother : terminating.containerID ∉ containersOf s.executor k := by
        intro hk
        have heq := List.inj_on_of_nodup_map h.named (mem_containersOf.mp (mem_live_of_stop hmine))
          (mem_containersOf.mp hk) rfl
        exact hid (Prod.mk.inj heq).2
      refine good_other (h.slots k) rfl ?_ (Pool.filterMap_set hg (by simp [opOf, hid]))
      rw [containersOf_filter, filter_ne_of_not_mem hother]
  · exact h.named.sublist (List.filter_sublist.map _)
  · exact h.started container (List.mem_filter.mp hc).1

theorem tracked_cleanUp (h : Tracked s) {i : Nat} {answers : Answers} {terminating : Terminating}
    (hg : s.executor.goroutines[i]? = some (.cleanUp terminating)) :
    Tracked ⟨s.allTasks, runGoroutine s.executor i answers (.cleanUp terminating)⟩ := by
  obtain ⟨before, after, -, hsplit, -, herase⟩ := Pool.split_of_getElem? hg
  have hmem : .cleanUp terminating ∈ s.executor.goroutines := List.mem_of_getElem? hg
  have hheld := (h.slots terminating.taskID).held (.cleanUp terminating.containerID)
    (List.mem_filterMap.mpr ⟨_, hmem, by simp [opOf]⟩) terminating.containerID rfl
  obtain ⟨taskCtx, hget, -⟩ := Option.map_eq_some_iff.mp hheld
  simp only [runGoroutine, hget]
  refine ⟨h.keyed, h.alive, h.unqueued, fun k => ?_, h.named, h.started,
    fun k ctx hk => h.stored k ctx (GoMap.get_of_get_delete hk).2,
    fun u c url hu => h.registering u c url (List.mem_of_mem_eraseIdx hu)⟩
  have hslot := h.slots k
  by_cases hid : terminating.taskID = k
  · unfold slotOf at hslot ⊢
    dsimp only
    rw [herase, GoMap.get_delete, if_pos hid.symm]
    rw [hsplit] at hslot
    simp only [List.filterMap_append, List.filterMap_cons, opOf, hid, if_true,
      Option.map_none] at hslot ⊢
    exact good_cleanUp hslot
  · refine good_other hslot ?_ rfl (Pool.filterMap_eraseIdx hg (by simp [opOf, hid]))
    dsimp only
    rw [GoMap.get_delete, if_neg (Ne.symm hid)]

def opsIn (taskID : String) (effects : List Effect) : List (Op Nat) :=
  (effects.filterMap goroutineOf).filterMap (opOf taskID)

@[simp] theorem opsIn_nil (taskID : String) : opsIn taskID [] = [] := rfl

@[simp] theorem opsIn_append (taskID : String) (xs ys : List Effect) :
    opsIn taskID (xs ++ ys) = opsIn taskID xs ++ opsIn taskID ys := by
  simp [opsIn]

theorem opsIn_updateOf (taskID : String) (task : ScheduledTaskInstance) (state : TaskStatus) :
    opsIn taskID [updateOf task state] = [] := rfl

theorem opsIn_launch (taskID : String) (task : ScheduledTaskInstance) (state : TaskStatus) :
    opsIn taskID [.launchTask task, updateOf task state] =
      if task.id = taskID then [.start] else [] := by
  by_cases hid : task.id = taskID <;> simp [opsIn, goroutineOf, updateOf, opOf, hid]

theorem opsIn_terminate (taskID id : String) (paused : Bool) :
    opsIn taskID [.terminateTask id paused] = if id = taskID then [.lookUp] else [] := by
  by_cases hid : id = taskID <;> simp [opsIn, goroutineOf, opOf, hid]

theorem opsIn_pauses (taskID : String) (tasks : List ScheduledTaskInstance) :
    opsIn taskID (tasks.flatMap (fun existTask =>
        [.terminateTask existTask.id true, updateOf existTask .paused])) =
      (tasks.filter (fun existTask => existTask.id == taskID)).map (fun _ => .lookUp) := by
  induction tasks with
  | nil => rfl
  | cons task tasks ih =>
    have hpause : opsIn taskID [.terminateTask task.id true, updateOf task .paused] =
        if task.id = taskID then [.lookUp] else [] := opsIn_terminate taskID task.id true
    rw [List.flatMap_cons, opsIn_append, ih, hpause]
    by_cases hid : task.id = taskID <;> simp [hid]

theorem opsIn_launches (taskID : String) (tasks : List ScheduledTaskInstance) :
    opsIn taskID (tasks.flatMap (fun task => [.launchTask task, updateOf task .running])) =
      (tasks.filter (fun task => task.id == taskID)).map (fun _ => .start) := by
  induction tasks with
  | nil => rfl
  | cons task tasks ih =>
    rw [List.flatMap_cons, opsIn_append, ih, opsIn_launch]
    by_cases hid : task.id = taskID <;> simp [hid]

theorem filter_values {allTasks : Tasks} (h : Keyed allTasks) (p : ScheduledTaskInstance → Bool)
    (taskID : String) :
    (allTasks.values.filter p).filter (fun task => task.id == taskID) =
      ((allTasks.get taskID).filter p).toList := by
  rw [List.filter_comm, GoMap.values_filter_key h taskID]
  cases allTasks.get taskID with
  | none => rfl
  | some task => cases hp : p task <;> simp [Option.filter, hp]

theorem tracked_spawn (h : Tracked s) {allTasks : Tasks} {effects : List Effect}
    (hkeyed : Keyed allTasks)
    (hslots : ∀ taskID, Good (runs allTasks taskID)
      { slotOf s.executor taskID with
        ops := (slotOf s.executor taskID).ops ++ opsIn taskID effects }) :
    Tracked ⟨allTasks, spawn s.executor effects⟩ := by
  refine ⟨hkeyed, h.alive, h.unqueued, fun taskID => ?_, h.named, h.started, h.stored,
    fun task c url hmem => ?_⟩
  · have hslot := hslots taskID
    simp only [slotOf, opsIn, ← List.filterMap_append] at hslot
    exact hslot
  · rcases List.mem_append.mp hmem with hmem | hmem
    · exact h.registering task c url hmem
    · obtain ⟨effect, -, heq⟩ := List.mem_filterMap.mp hmem
      cases effect <;> cases heq

def pauses (allTasks : Tasks) (task : ScheduledTaskInstance) : List Effect :=
  (allTasks.values.filter (overTaken task)).flatMap (fun existTask =>
    [.terminateTask existTask.id true, updateOf existTask .paused])

theorem onScheduledTask_effects (allTasks : Tasks) (task : ScheduledTaskInstance) :
    (onScheduledTask allTasks task).2 = pauses allTasks task ++
      if (admitted allTasks task).status = .running then
        [.launchTask task, updateOf task .running]
      else [updateOf task .paused] := by
  unfold onScheduledTask admitted pauses
  cases h : !allTasks.values.any (cannotRun task) <;> rfl

theorem good_pauses (task : ScheduledTaskInstance) {allTasks : Tasks} {taskID : String}
    {slot : Slot Nat} (hkeyed : Keyed allTasks) (h : Good (runs allTasks taskID) slot) :
    Good (runs (allTasks.mapVals (pause task)) taskID)
      { slot with ops := slot.ops ++ opsIn taskID (pauses allTasks task) } := by
  rw [pauses, opsIn_pauses, filter_values hkeyed]
  unfold runs at h ⊢
  rw [GoMap.get_mapVals]
  cases hget : allTasks.get taskID with
  | none => simpa [hget] using h
  | some existTask =>
    cases hover : overTaken task existTask with
    | true =>
      have hpaused : ((pause task existTask).status == .running) = false := by
        rw [pause, if_pos hover]
        rfl
      simpa [Option.filter, hover, hpaused] using good_push_termination h
    | false => simpa [Option.filter, hover, hget, pause] using h

theorem tracked_scheduled (h : Tracked s) {task : ScheduledTaskInstance}
    (horder : ∀ existTask, s.allTasks.get task.id = some existTask →
      (pause task existTask).status ≠ .running) :
    Tracked ⟨(onScheduledTask s.allTasks task).1,
      spawn s.executor (onScheduledTask s.allTasks task).2⟩ := by
  refine tracked_spawn h (keyed_onScheduledTask h.keyed) (fun taskID => ?_)
  have hpaused := good_pauses task h.keyed (h.slots taskID)
  rw [onScheduledTask_effects, onScheduledTask_eq, opsIn_append, ← List.append_assoc]
  by_cases hid : taskID = task.id
  · subst hid
    have hoff : runs (s.allTasks.mapVals (pause task)) task.id = false := by
      unfold runs
      rw [GoMap.get_mapVals]
      cases hget : s.allTasks.get task.id with
      | none => rfl
      | some existTask => simpa using horder existTask hget
    rw [hoff] at hpaused
    unfold runs
    rw [GoMap.get_set_self]
    by_cases hrun : (admitted s.allTasks task).status = .running
    · rw [if_pos hrun, opsIn_launch, if_pos rfl, Option.any_some, hrun]
      exact good_push_launch hpaused
    · have hnot : ((admitted s.allTasks task).status == .running) = false := by simpa using hrun
      rw [if_neg hrun, opsIn_updateOf, List.append_nil, Option.any_some, hnot]
      exact hpaused
  · unfold runs at hpaused ⊢
    rw [GoMap.get_set_ne _ _ hid]
    split_ifs
    · rw [opsIn_launch, if_neg (Ne.symm hid), List.append_nil]
      exact hpaused
    · rw [opsIn_updateOf, List.append_nil]
      exact hpaused

def stops (taskID : String) (myTask : ScheduledTaskInstance) : List Effect :=
  if myTask.status == .running then [.terminateTask taskID false] else []

theorem resumeAll_none (allTasks : Tasks) :
    resumeAll allTasks (fun _ => false) = (allTasks, []) := by
  have hsame : resume (fun _ => false) = id := by
    funext task
    rfl
  unfold resumeAll
  rw [hsame, GoMap.mapVals_id]
  simp

theorem onTerminateTask_resumes {allTasks : Tasks} {taskID : String}
    {myTask : ScheduledTaskInstance} (hget : allTasks.get taskID = some myTask) :
    ∃ p, ((myTask.isExclusive = true →
        (∀ t ∈ (allTasks.delete myTask.id).values, t.isExclusive = true → t.status ≠ .running) →
        (searchUrgent (allTasks.delete myTask.id).values).1 = true →
        ∀ t ∈ (allTasks.delete myTask.id).values,
          t.priorityLevel = (searchUrgent (allTasks.delete myTask.id).values).2 →
          t.status ≠ .running) →
        ∀ t ∈ (allTasks.delete myTask.id).values, p t = true → t.status ≠ .running) ∧
      onTerminateTask allTasks taskID = ((resumeAll (allTasks.delete myTask.id) p).1,
        stops taskID myTask ++ (resumeAll (allTasks.delete myTask.id) p).2) := by
  simp only [onTerminateTask, hget]
  generalize hrest : allTasks.delete myTask.id = rest
  cases hx : myTask.isExclusive with
  | false => exact ⟨fun _ => false, by simp, by simp [resumeAll_none, stops]⟩
  | true =>
    cases hactive : rest.values.any (fun t => t.isExclusive == true && t.status == .running) with
    | true => exact ⟨fun _ => false, by simp, by simp [resumeAll_none, stops]⟩
    | false =>
      have hidle (t : ScheduledTaskInstance) (ht : t ∈ rest.values)
          (hurgent : t.isExclusive = true) : t.status ≠ .running := by
        intro hrun
        simpa [hurgent, hrun] using List.any_eq_false.mp hactive t ht
      cases hfound : (searchUrgent rest.values).1 with
      | true =>
        refine ⟨fun task => task.priorityLevel == (searchUrgent rest.values).2,
          fun horder t ht hlevel => ?_, by simp [stops]⟩
        exact horder rfl hidle rfl t ht (by simpa using hlevel)
      | false => exact ⟨fun task => task.status != .running, by simp, by simp [stops]⟩

theorem good_stops {taskID k : String} {myTask : ScheduledTaskInstance} {slot : Slot Nat}
    (h : Good (myTask.status == .running) slot) (hk : k = taskID) :
    Good false { slot with ops := slot.ops ++ opsIn k (stops taskID myTask) } := by
  subst hk
  unfold stops
  cases hrun : myTask.status == .running with
  | true =>
    simp only [if_true, opsIn_terminate]
    exact good_push_termination h
  | false =>
    rw [hrun] at h
    simpa using h

theorem opsIn_stops_other {taskID k : String} {myTask : ScheduledTaskInstance} (hk : k ≠ taskID) :
    opsIn k (stops taskID myTask) = [] := by
  unfold stops
  split_ifs
  · rw [opsIn_terminate, if_neg (Ne.symm hk)]
  · rfl

theorem tracked_terminated (h : Tracked s) {taskID : String}
    (horder : InOrder s (.terminated taskID)) :
    Tracked ⟨(onTerminateTask s.allTasks taskID).1,
      spawn s.executor (onTerminateTask s.allTasks taskID).2⟩ := by
  refine tracked_spawn h (keyed_onTerminateTask h.keyed) (fun k => ?_)
  have hslot := h.slots k
  unfold runs at hslot ⊢
  generalize slotOf s.executor k = slot at hslot ⊢
  cases hget : s.allTasks.get taskID with
  | none => simpa [onTerminateTask, hget] using hslot
  | some myTask =>
    obtain ⟨p, hp, heq⟩ := onTerminateTask_resumes hget
    have hp := hp (horder myTask hget)
    have hid : myTask.id = taskID := h.keyed taskID myTask hget
    have hkeyed : Keyed (s.allTasks.delete myTask.id) :=
      fun j t ht => h.keyed j t (GoMap.get_of_get_delete ht).2
    rw [heq, opsIn_append]
    simp only [resumeAll]
    rw [opsIn_launches, filter_values hkeyed, GoMap.get_mapVals, GoMap.get_delete, hid]
    by_cases hk : k = taskID
    · rw [if_pos hk]
      rw [hk, hget] at hslot
      simpa [hk] using good_stops hslot rfl
    · rw [if_neg hk, opsIn_stops_other hk, List.nil_append]
      cases hother : s.allTasks.get k with
      | none => simpa [hother] using hslot
      | some task =>
        cases hresume : p task with
        | true =>
          have hpaused : task.status ≠ .running := by
            refine hp task (GoMap.mem_values_delete.mpr ⟨k, ?_, hother⟩) hresume
            rwa [hid]
          have hoff : (task.status == .running) = false := by simpa using hpaused
          rw [hother, Option.any_some, hoff] at hslot
          simpa [Option.filter, hresume, resume] using good_push_launch hslot
        | false =>
          rw [hother] at hslot
          simpa [Option.filter, hresume, resume] using hslot

theorem tracked_step (h : Tracked s) {label : WorkerLabel} (horder : InOrder s label)
    (hs : workerStep s label = some t) : Tracked t := by
  unfold workerStep at hs
  rw [if_neg (by simp [h.alive])] at hs
  cases label with
  | scheduled task =>
    obtain rfl := Option.some.inj hs
    exact tracked_scheduled h horder
  | terminated taskID =>
    obtain rfl := Option.some.inj hs
    exact tracked_terminated h horder
  | run i refURL subIDs =>
    obtain ⟨g, hg, rfl⟩ := Option.map_eq_some_iff.mp hs
    cases g with
    | startTask task => exact tracked_startTask h rfl hg
    | register task containerID url =>
      exact tracked_register h hg (horder.1 task containerID url hg)
    | delayedInputs taskID => exact tracked_delayedInputs h hg
    | lookUp taskID paused =>
      exact tracked_lookUp h hg (horder.2 taskID paused hg).1 (horder.2 taskID paused hg).2
    | stopTask terminating => exact tracked_stopTask h hg
    | cleanUp terminating => exact tracked_cleanUp h hg

theorem accounted_of_tracked (h : Tracked s) : Accounted s := by
  intro hidle taskID
  have hslot := h.slots taskID
  simp only [slotOf, hidle, List.filterMap_nil] at hslot
  exact good_idle hslot

theorem containers_accounted {labels : List WorkerLabel}
    (hm : Meets workerStep InOrder .init labels) : Always workerStep Accounted .init labels :=
  always_of_meets (I := fun _ s => Tracked s) hm tracked_init
    (fun _ _ _ _ _ _ h hc hs => tracked_step h hc hs) (fun _ _ h => accounted_of_tracked h)

def runAt (i : Nat) : WorkerLabel := .run i "http://task" (fun _ => none)

def launch : List WorkerLabel := [.scheduled (exampleTask "counter" false 0), runAt 0, runAt 0]

theorem launch_accounted : Always workerStep Accounted .init (launch ++ [runAt 0]) := by
  have hscheduled : Meets workerStep InOrder .init (launch.take 1) :=
    meets_singleton.mpr (by simp [InOrder, WorkerSystem.init])
  have hstarted : Meets workerStep InOrder .init (launch.take 1 ++ [runAt 0]) := by
    refine (meets_concat rfl).mpr ⟨hscheduled, fun _ _ _ _ => by simp, fun _ _ h => ?_⟩
    cases h
  have hregistered : Meets workerStep InOrder .init (launch.take 2 ++ [runAt 0]) := by
    refine (meets_concat rfl).mpr ⟨hstarted, fun _ _ _ _ => by simp, fun _ _ h => ?_⟩
    cases h
  have hflushed : Meets workerStep InOrder .init (launch ++ [runAt 0]) := by
    refine (meets_concat rfl).mpr ⟨hregistered, fun _ _ _ h => ?_, fun _ _ h => ?_⟩
    · cases h
    · cases h
  exact containers_accounted hflushed

def overtakenLaunch : List WorkerLabel :=
  [.scheduled (exampleTask "counter" false 0), .terminated "counter", runAt 1, runAt 0, runAt 0,
    runAt 0]

-- the termination finds no entry and returns, and then the launch goes on
theorem overtaken_launch_left :
    ∃ s, exec workerStep .init overtakenLaunch = some s ∧ s.executor.goroutines = [] ∧
      runs s.allTasks "counter" = false ∧ containersOf s.executor "counter" = [0] ∧
      ¬ Accounted s := by
  refine ⟨_, rfl, rfl, rfl, rfl, fun h => ?_⟩
  have hcount := h rfl "counter"
  revert hcount
  decide

end FogFlow.Worker
