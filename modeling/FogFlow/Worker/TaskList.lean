import FogFlow.Worker.Scheduling

namespace FogFlow.Worker

open Datamodel

-- the list holds every task under its own id
def Keyed (allTasks : Tasks) : Prop := ∀ k t, allTasks.get k = some t → t.id = k

theorem keyed_empty : Keyed ∅ := by simp [Keyed]

@[simp] theorem pause_isExclusive (x t : ScheduledTaskInstance) :
    (pause x t).isExclusive = t.isExclusive := by
  unfold pause
  split <;> rfl

@[simp] theorem pause_priorityLevel (x t : ScheduledTaskInstance) :
    (pause x t).priorityLevel = t.priorityLevel := by
  unfold pause
  split <;> rfl

@[simp] theorem pause_id (x t : ScheduledTaskInstance) : (pause x t).id = t.id := by
  unfold pause
  split <;> rfl

theorem pause_running_iff (x t : ScheduledTaskInstance) :
    (pause x t).status = .running ↔ t.status = .running ∧ overTaken x t = false := by
  unfold pause
  cases h : overTaken x t <;> simp

def admitted (allTasks : Tasks) (x : ScheduledTaskInstance) : ScheduledTaskInstance :=
  { x with status := if !allTasks.values.any (cannotRun x) then .running else .paused }

@[simp] theorem admitted_isExclusive (allTasks : Tasks) (x : ScheduledTaskInstance) :
    (admitted allTasks x).isExclusive = x.isExclusive := rfl

@[simp] theorem admitted_priorityLevel (allTasks : Tasks) (x : ScheduledTaskInstance) :
    (admitted allTasks x).priorityLevel = x.priorityLevel := rfl

theorem onScheduledTask_eq (allTasks : Tasks) (x : ScheduledTaskInstance) :
    (onScheduledTask allTasks x).1 =
      (allTasks.mapVals (pause x)).set x.id (admitted allTasks x) := by
  unfold onScheduledTask admitted
  cases h : !allTasks.values.any (cannotRun x) <;> rfl

theorem get_onScheduledTask {allTasks : Tasks} {x u : ScheduledTaskInstance} {k : String}
    (hu : (onScheduledTask allTasks x).1.get k = some u) :
    (k = x.id ∧ u = admitted allTasks x) ∨
      (k ≠ x.id ∧ ∃ v, allTasks.get k = some v ∧ u = pause x v) := by
  rw [onScheduledTask_eq, GoMap.get_set] at hu
  split_ifs at hu with hkx
  · exact Or.inl ⟨hkx, (Option.some.inj hu).symm⟩
  · rw [GoMap.get_mapVals, Option.map_eq_some_iff] at hu
    obtain ⟨v, hv, rfl⟩ := hu
    exact Or.inr ⟨hkx, v, hv, rfl⟩

theorem keyed_onScheduledTask {allTasks : Tasks} {x : ScheduledTaskInstance}
    (h : Keyed allTasks) : Keyed (onScheduledTask allTasks x).1 := by
  intro k u hu
  rcases get_onScheduledTask hu with ⟨rfl, rfl⟩ | ⟨-, v, hv, rfl⟩
  · rfl
  · simpa using h k v hv

theorem mem_onScheduledTask_iff {allTasks : Tasks} {x : ScheduledTaskInstance} {k : String} :
    (onScheduledTask allTasks x).1.get k = none ↔ k ≠ x.id ∧ allTasks.get k = none := by
  rw [onScheduledTask_eq, GoMap.get_set]
  split_ifs with hkx <;> simp [hkx]

@[simp] theorem resume_isExclusive (p : ScheduledTaskInstance → Bool) (t : ScheduledTaskInstance) :
    (resume p t).isExclusive = t.isExclusive := by
  unfold resume
  split <;> rfl

@[simp] theorem resume_priorityLevel (p : ScheduledTaskInstance → Bool)
    (t : ScheduledTaskInstance) : (resume p t).priorityLevel = t.priorityLevel := by
  unfold resume
  split <;> rfl

@[simp] theorem resume_id (p : ScheduledTaskInstance → Bool) (t : ScheduledTaskInstance) :
    (resume p t).id = t.id := by
  unfold resume
  split <;> rfl

theorem resume_running_iff (p : ScheduledTaskInstance → Bool) (t : ScheduledTaskInstance) :
    (resume p t).status = .running ↔ p t = true ∨ t.status = .running := by
  unfold resume
  cases h : p t <;> simp

def toResume (S : Tasks) : ScheduledTaskInstance → Bool :=
  let urgent := searchUrgent S.values
  if urgent.1 then fun task => task.priorityLevel == urgent.2
  else fun task => task.status != .running

inductive Termination (allTasks : Tasks) (t : ScheduledTaskInstance) : Tasks → Prop where
  | ordinary : t.isExclusive = false → Termination allTasks t (allTasks.delete t.id)
  | urgentLeft (e : ScheduledTaskInstance) : t.isExclusive = true →
      e ∈ (allTasks.delete t.id).values → e.isExclusive = true → e.status = .running →
      Termination allTasks t (allTasks.delete t.id)
  | lastUrgent : t.isExclusive = true →
      (∀ e ∈ (allTasks.delete t.id).values, e.isExclusive = true → e.status ≠ .running) →
      Termination allTasks t
        ((allTasks.delete t.id).mapVals (resume (toResume (allTasks.delete t.id))))

theorem onTerminateTask_cases {allTasks : Tasks} {taskID : String} {t : ScheduledTaskInstance}
    (ht : allTasks.get taskID = some t) :
    Termination allTasks t (onTerminateTask allTasks taskID).1 := by
  simp only [onTerminateTask, ht]
  cases hx : t.isExclusive with
  | false => simpa using .ordinary hx
  | true =>
    cases ha : (allTasks.delete t.id).values.any
        (fun t => t.isExclusive == true && t.status == .running) with
    | true =>
      obtain ⟨e, he, hr⟩ := List.any_eq_true.mp ha
      simp only [Bool.and_eq_true, beq_iff_eq] at hr
      simpa using .urgentLeft e hx he hr.1 hr.2
    | false =>
      have hnone : ∀ e ∈ (allTasks.delete t.id).values,
          e.isExclusive = true → e.status ≠ .running := by
        intro e he hxe hr
        have := List.any_eq_false.mp ha e he
        simp [hxe, hr] at this
      have hlast := Termination.lastUrgent hx hnone
      cases hf : (searchUrgent (allTasks.delete t.id).values).1 <;>
        simpa [toResume, resumeAll, hf] using hlast

theorem get_onTerminateTask {allTasks : Tasks} {taskID k : String} {u : ScheduledTaskInstance}
    (hu : (onTerminateTask allTasks taskID).1.get k = some u) :
    ∃ v, allTasks.get k = some v ∧ v.id = u.id ∧ v.priorityLevel = u.priorityLevel := by
  cases ht : allTasks.get taskID with
  | none => exact ⟨u, by simpa [onTerminateTask, ht] using hu, rfl, rfl⟩
  | some t =>
    have hcases := onTerminateTask_cases ht
    generalize (onTerminateTask allTasks taskID).1 = next at hcases hu
    cases hcases with
    | ordinary _ => exact ⟨u, (GoMap.get_of_get_delete hu).2, rfl, rfl⟩
    | urgentLeft _ _ _ _ _ => exact ⟨u, (GoMap.get_of_get_delete hu).2, rfl, rfl⟩
    | lastUrgent _ _ =>
      rw [GoMap.get_mapVals, Option.map_eq_some_iff] at hu
      obtain ⟨v, hv, rfl⟩ := hu
      exact ⟨v, (GoMap.get_of_get_delete hv).2, by simp, by simp⟩

theorem keyed_onTerminateTask {allTasks : Tasks} {taskID : String} (h : Keyed allTasks) :
    Keyed (onTerminateTask allTasks taskID).1 := by
  intro k u hu
  obtain ⟨v, hv, hid, -⟩ := get_onTerminateTask hu
  exact hid ▸ h k v hv

theorem mem_onTerminateTask_iff {allTasks : Tasks} {taskID k : String} (h : Keyed allTasks) :
    (onTerminateTask allTasks taskID).1.get k = none ↔ k = taskID ∨ allTasks.get k = none := by
  cases ht : allTasks.get taskID with
  | none =>
    have : k = taskID → allTasks.get k = none := fun hk => hk ▸ ht
    simpa [onTerminateTask, ht] using this
  | some t =>
    have hid := h taskID t ht
    have hcases := onTerminateTask_cases ht
    generalize (onTerminateTask allTasks taskID).1 = next at hcases
    cases hcases <;> simp [GoMap.get_delete, hid, or_iff_not_imp_left]

end FogFlow.Worker
