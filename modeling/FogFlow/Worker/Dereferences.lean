import FogFlow.Library.Pool
import FogFlow.Worker.Executor
import FogFlow.Worker.Scheduling

namespace FogFlow.Worker

open Ngsi Datamodel Execution

-- the task of a TerminateTask that has left its first section and not its second
def Goroutine.terminating : Goroutine → Option String
  | .stopTask terminating => some terminating.taskID
  | .cleanUp terminating => some terminating.taskID
  | _ => none

def Executor.terminations (e : Executor) : List String :=
  e.goroutines.filterMap Goroutine.terminating

def Orderly (startActualTask : Bool) (e : Executor) : Operation → Prop
  | .launchTask _ => True
  | .terminateTask _ _ => True
  | .onAddInput flow _ => startActualTask = true →
      e.taskInstances.get flow.taskInstanceID = none →
      .delayedInputs flow.taskInstanceID ∉ e.goroutines
  | .onRemoveInput flow => startActualTask = true →
      e.taskInstances.get flow.taskInstanceID ≠ none
  | .run i _ =>
      (∀ taskID paused, e.goroutines[i]? = some (.lookUp taskID paused) →
        taskID ∉ e.terminations) ∧
      (∀ terminating, e.goroutines[i]? = some (.cleanUp terminating) →
        .delayedInputs terminating.taskID ∈ e.goroutines →
        e.delayedAddInputCommands.get terminating.taskID = none)

structure Guarded (e : Executor) : Prop where
  alive : e.crashed = false
  single : e.terminations.Nodup
  held : ∀ taskID ∈ e.terminations, e.taskInstances.get taskID ≠ none
  queued : ∀ taskID, .delayedInputs taskID ∈ e.goroutines →
    e.delayedAddInputCommands.get taskID = none ∨ e.taskInstances.get taskID ≠ none

variable {startActualTask : Bool} {e : Executor}

theorem guarded_init : Guarded .init :=
  ⟨rfl, by simp [Executor.terminations, Executor.init],
    by simp [Executor.terminations, Executor.init], by simp [Executor.init]⟩

theorem get_set_ne_none {m : GoMap TaskContext} {k k' : String} {ctx : TaskContext}
    (h : m.get k' ≠ none) : (m.set k ctx).get k' ≠ none := by
  rw [GoMap.get_set]
  split_ifs <;> simp [h]

theorem guarded_spawn (h : Guarded e) {g : Goroutine} (hg : g.terminating = none)
    (hd : ∀ taskID, g ≠ .delayedInputs taskID) :
    Guarded { e with goroutines := e.goroutines ++ [g] } := by
  have hsame : ({ e with goroutines := e.goroutines ++ [g] } : Executor).terminations =
      e.terminations := by
    simp [Executor.terminations, hg]
  refine ⟨h.alive, hsame ▸ h.single, hsame ▸ h.held, fun taskID hmem => ?_⟩
  rcases List.mem_append.mp hmem with hmem | hmem
  · exact h.queued taskID hmem
  · exact absurd (List.mem_singleton.mp hmem).symm (hd taskID)

theorem guarded_onAddInput (h : Guarded e) {flow : FlowInfo} {answer : Option String}
    (hc : Orderly startActualTask e (.onAddInput flow answer)) :
    Guarded (onAddInput startActualTask e flow answer) := by
  unfold onAddInput
  split_ifs with hstart
  · exact h
  · split
    case h_1 taskCtx hget =>
      exact ⟨h.alive, h.single, fun k hk => get_set_ne_none (h.held k hk),
        fun k hk => (h.queued k hk).imp_right get_set_ne_none⟩
    case h_2 hget =>
      refine ⟨h.alive, h.single, h.held, fun k hk => ?_⟩
      have hne : k ≠ flow.taskInstanceID := by
        rintro rfl
        exact hc (by simpa using hstart) hget hk
      simpa [GoMap.get_set, hne] using h.queued k hk

theorem guarded_onRemoveInput (h : Guarded e) {flow : FlowInfo}
    (hc : Orderly startActualTask e (.onRemoveInput flow)) :
    Guarded (onRemoveInput startActualTask e flow) := by
  unfold onRemoveInput
  split_ifs with hstart
  · exact h
  · split
    case h_1 hget => exact absurd hget (hc (by simpa using hstart))
    case h_2 taskCtx hget =>
      exact ⟨h.alive, h.single, fun k hk => get_set_ne_none (h.held k hk),
        fun k hk => (h.queued k hk).imp_right get_set_ne_none⟩

-- a step that touches neither the pending terminations nor the queued inputs of a launch
theorem guarded_same {e' : Executor} (h : Guarded e) (halive : e'.crashed = e.crashed)
    (hterm : e'.terminations = e.terminations)
    (hget : ∀ k, e.taskInstances.get k ≠ none → e'.taskInstances.get k ≠ none)
    (hqueue : ∀ k, .delayedInputs k ∈ e'.goroutines → e'.taskInstances.get k ≠ none ∨
      (.delayedInputs k ∈ e.goroutines ∧
        (e.delayedAddInputCommands.get k = none → e'.delayedAddInputCommands.get k = none))) :
    Guarded e' := by
  refine ⟨halive.trans h.alive, hterm ▸ h.single, fun k hk => hget k (h.held k (hterm ▸ hk)),
    fun k hk => ?_⟩
  rcases hqueue k hk with hnew | ⟨hold, hnone⟩
  · exact Or.inr hnew
  · exact (h.queued k hold).imp hnone (hget k)

theorem guarded_done (h : Guarded e) {i : Nat} {g : Goroutine} (hg : e.goroutines[i]? = some g)
    (hnone : g.terminating = none) :
    Guarded { e with goroutines := e.goroutines.eraseIdx i } :=
  guarded_same h rfl (Pool.filterMap_eraseIdx hg hnone) (fun _ hk => hk)
    (fun _ hk => Or.inr ⟨List.mem_of_mem_eraseIdx hk, id⟩)

theorem guarded_startTask (h : Guarded e) {i : Nat} {answers : Answers}
    {task : ScheduledTaskInstance} (hg : e.goroutines[i]? = some (.startTask task)) :
    Guarded (runGoroutine e i answers (.startTask task)) := by
  simp only [runGoroutine]
  split
  case h_1 => exact guarded_done h hg rfl
  case h_2 =>
    refine guarded_same h rfl (Pool.filterMap_set hg rfl) (fun _ hk => hk) (fun k hk => ?_)
    rcases List.mem_or_eq_of_mem_set hk with hk | hk
    · exact Or.inr ⟨hk, id⟩
    · cases hk

theorem guarded_register (h : Guarded e) {i : Nat} {answers : Answers}
    {task : ScheduledTaskInstance} {containerID : Nat} {refURL : String}
    (hg : e.goroutines[i]? = some (.register task containerID refURL)) :
    Guarded (runGoroutine e i answers (.register task containerID refURL)) := by
  refine guarded_same h rfl (Pool.filterMap_set hg rfl) (fun _ hk => get_set_ne_none hk)
    (fun k hk => ?_)
  rcases List.mem_or_eq_of_mem_set hk with hk | hk
  · exact Or.inr ⟨hk, id⟩
  · cases hk
    exact Or.inl (by simp [runGoroutine])

theorem guarded_delayedInputs (h : Guarded e) {i : Nat} {answers : Answers} {taskID : String}
    (hg : e.goroutines[i]? = some (.delayedInputs taskID)) :
    Guarded (runGoroutine e i answers (.delayedInputs taskID)) := by
  have hterm : (e.goroutines.eraseIdx i).filterMap Goroutine.terminating = e.terminations :=
    Pool.filterMap_eraseIdx hg rfl
  have hmem (k : String) (hk : .delayedInputs k ∈ e.goroutines.eraseIdx i) :
      .delayedInputs k ∈ e.goroutines := List.mem_of_mem_eraseIdx hk
  have hdelete (k : String) (hk : e.delayedAddInputCommands.get k = none) :
      (e.delayedAddInputCommands.delete taskID).get k = none := by
    rw [GoMap.get_delete]
    split_ifs <;> simp [hk]
  simp only [runGoroutine, handleDelayedAddInputCommands]
  split
  case h_1 => exact guarded_done h hg rfl
  case h_2 flowList hflows =>
    -- queued inputs need the task, and the task is there as long as they are queued
    have hheld := (h.queued taskID (List.mem_of_getElem? hg)).resolve_left (by simp [hflows])
    split
    case h_1 =>
      exact guarded_same h rfl hterm (fun _ hk => hk)
        (fun k hk => Or.inr ⟨hmem k hk, hdelete k⟩)
    case h_2 hnone => exact absurd hnone hheld
    case h_3 =>
      exact guarded_same h rfl hterm (fun _ hk => get_set_ne_none hk)
        (fun k hk => Or.inr ⟨hmem k hk, hdelete k⟩)

theorem guarded_lookUp (h : Guarded e) {i : Nat} {answers : Answers} {taskID : String}
    {paused : Bool} (hg : e.goroutines[i]? = some (.lookUp taskID paused))
    (hfree : taskID ∉ e.terminations) :
    Guarded (runGoroutine e i answers (.lookUp taskID paused)) := by
  obtain ⟨before, after, -, hsplit, hset, -⟩ := Pool.split_of_getElem? hg
  simp only [runGoroutine]
  split
  case h_1 => exact guarded_done h hg rfl
  case h_2 taskCtx hget =>
    have hperm : (before ++ Goroutine.stopTask ⟨taskID, paused, taskCtx.containerID,
        taskCtx.topologyName, taskCtx.taskName, taskCtx.serviceIntentID⟩ :: after).filterMap
          Goroutine.terminating |>.Perm (taskID :: e.terminations) := by
      rw [Executor.terminations, hsplit, List.filterMap_append, List.filterMap_append]
      exact List.perm_middle
    refine ⟨h.alive, ?_, fun k hk => ?_, fun k hk => ?_⟩
    · rw [Executor.terminations, hset, hperm.nodup_iff, List.nodup_cons]
      exact ⟨hfree, h.single⟩
    · rw [Executor.terminations, hset, hperm.mem_iff] at hk
      rcases List.mem_cons.mp hk with rfl | hk
      · simp [hget]
      · exact h.held k hk
    · rcases List.mem_or_eq_of_mem_set hk with hk | hk
      · exact h.queued k hk
      · cases hk

theorem guarded_stopTask (h : Guarded e) {i : Nat} {answers : Answers} {terminating : Terminating}
    (hg : e.goroutines[i]? = some (.stopTask terminating)) :
    Guarded (runGoroutine e i answers (.stopTask terminating)) := by
  refine guarded_same h rfl (Pool.filterMap_set hg rfl) (fun _ hk => hk) (fun k hk => ?_)
  rcases List.mem_or_eq_of_mem_set hk with hk | hk
  · exact Or.inr ⟨hk, id⟩
  · cases hk

theorem guarded_cleanUp (h : Guarded e) {i : Nat} {answers : Answers} {terminating : Terminating}
    (hg : e.goroutines[i]? = some (.cleanUp terminating))
    (hqueue : .delayedInputs terminating.taskID ∈ e.goroutines →
      e.delayedAddInputCommands.get terminating.taskID = none) :
    Guarded (runGoroutine e i answers (.cleanUp terminating)) := by
  obtain ⟨before, after, -, hsplit, -, herase⟩ := Pool.split_of_getElem? hg
  have hperm : e.terminations.Perm
      (terminating.taskID :: (before ++ after).filterMap Goroutine.terminating) := by
    rw [Executor.terminations, hsplit, List.filterMap_append, List.filterMap_append]
    exact List.perm_middle
  have hsingle := hperm.nodup_iff.mp h.single
  simp only [runGoroutine]
  split
  case h_1 hnone => exact absurd hnone (h.held _ (hperm.mem_iff.mpr (by simp)))
  case h_2 taskCtx hget =>
    refine ⟨h.alive, ?_, fun k hk => ?_, fun k hk => ?_⟩
    · rw [Executor.terminations, herase]
      exact (List.nodup_cons.mp hsingle).2
    · rw [Executor.terminations, herase] at hk
      have hne : k ≠ terminating.taskID := by
        rintro rfl
        exact (List.nodup_cons.mp hsingle).1 hk
      dsimp only
      rw [GoMap.get_delete, if_neg hne]
      exact h.held k (hperm.mem_iff.mpr (List.mem_cons_of_mem _ hk))
    · have hold := List.mem_of_mem_eraseIdx hk
      by_cases hne : k = terminating.taskID
      · subst hne
        exact Or.inl (hqueue hold)
      · dsimp only
        rw [GoMap.get_delete, if_neg hne]
        exact h.queued k hold

theorem guarded_operate (h : Guarded e) {operation : Operation} {e' : Executor}
    (hc : Orderly startActualTask e operation)
    (hs : operate startActualTask e operation = some e') : Guarded e' := by
  unfold operate at hs
  rw [if_neg (by simp [h.alive])] at hs
  cases operation with
  | launchTask task =>
    obtain rfl := Option.some.inj hs
    exact guarded_spawn h rfl (by simp)
  | terminateTask taskID paused =>
    obtain rfl := Option.some.inj hs
    exact guarded_spawn h rfl (by simp)
  | onAddInput flow answer =>
    obtain rfl := Option.some.inj hs
    exact guarded_onAddInput h hc
  | onRemoveInput flow =>
    obtain rfl := Option.some.inj hs
    exact guarded_onRemoveInput h hc
  | run i answers =>
    obtain ⟨g, hg, rfl⟩ := Option.map_eq_some_iff.mp hs
    cases g with
    | startTask task => exact guarded_startTask h hg
    | register task containerID refURL => exact guarded_register h hg
    | delayedInputs taskID => exact guarded_delayedInputs h hg
    | lookUp taskID paused => exact guarded_lookUp h hg (hc.1 taskID paused hg)
    | stopTask terminating => exact guarded_stopTask h hg
    | cleanUp terminating => exact guarded_cleanUp h hg (hc.2 terminating hg)

theorem no_missing_dereference {operations : List Operation}
    (hm : Meets (operate startActualTask) (Orderly startActualTask) .init operations) :
    Always (operate startActualTask) (fun e => e.crashed = false) .init operations :=
  always_of_meets (I := fun _ e => Guarded e) hm guarded_init
    (fun _ _ _ _ _ _ h hc hs => guarded_operate h hc hs) (fun _ _ h => h.alive)

def noAnswers : Answers := ⟨some "http://task", fun _ => none⟩

def twoTerminations : List Operation :=
  [.launchTask (exampleTask "counter" false 0), .run 0 noAnswers, .run 0 noAnswers,
    .run 0 noAnswers, .terminateTask "counter" true, .terminateTask "counter" false,
    .run 0 noAnswers, .run 1 noAnswers, .run 0 noAnswers, .run 0 noAnswers, .run 0 noAnswers,
    .run 0 noAnswers]

theorem two_terminations_crash :
    ∃ e, exec (operate true) .init twoTerminations = some e ∧ e.crashed = true :=
  ⟨_, rfl, rfl⟩

-- a termination that overtakes the launch finds nothing and returns
theorem overtaking_no_dereference :
    Always (operate true) (fun e => e.crashed = false) .init
      [.launchTask (exampleTask "counter" false 0), .terminateTask "counter" true,
        .run 1 noAnswers] := by
  have hlaunch : Meets (operate true) (Orderly true) .init
      [.launchTask (exampleTask "counter" false 0)] := meets_singleton.mpr trivial
  have hterminate : Meets (operate true) (Orderly true) .init
      ([.launchTask (exampleTask "counter" false 0)] ++ [.terminateTask "counter" true]) :=
    (meets_concat rfl).mpr ⟨hlaunch, trivial⟩
  have hrun : Meets (operate true) (Orderly true) .init
      ([.launchTask (exampleTask "counter" false 0), .terminateTask "counter" true] ++
        [.run 1 noAnswers]) := by
    refine (meets_concat rfl).mpr ⟨hterminate, fun taskID paused _ => ?_, fun terminating h => ?_⟩
    · simp [Executor.terminations, Executor.init, Goroutine.terminating]
    · cases h
  exact no_missing_dereference hrun

end FogFlow.Worker
