import FogFlow.Worker.TaskList
import Mathlib.Data.Finset.Max

namespace FogFlow.Worker

open Datamodel Execution Preemption

def present (allTasks : Tasks) : Set ScheduledTaskInstance := {t | t ∈ allTasks.values}

abbrev Exclusive (t : ScheduledTaskInstance) : Prop := t.isExclusive = true

abbrev IsDue (S : Set ScheduledTaskInstance) (t : ScheduledTaskInstance) : Prop :=
  Due Exclusive ScheduledTaskInstance.priorityLevel S t

def Top (S : Set ScheduledTaskInstance) (e : ScheduledTaskInstance) : Prop :=
  e ∈ S ∧ Exclusive e ∧ ∀ u ∈ S, Exclusive u → u.priorityLevel ≤ e.priorityLevel

def MutualExclusion (allTasks : Tasks) : Prop :=
  ∀ e ∈ allTasks.values, e.isExclusive = true → e.status = .running →
    ∀ u ∈ allTasks.values,
      (u.isExclusive = false → u.status ≠ .running) ∧
      (u.isExclusive = true → u.priorityLevel < e.priorityLevel → u.status ≠ .running)

def NoStarvation (allTasks : Tasks) : Prop :=
  ((∃ e ∈ allTasks.values, e.isExclusive = true) →
    ∀ t ∈ allTasks.values, t.isExclusive = true →
      (∀ u ∈ allTasks.values, u.isExclusive = true → u.priorityLevel ≤ t.priorityLevel) →
      t.status = .running) ∧
  ((∀ e ∈ allTasks.values, e.isExclusive = false) → ∀ t ∈ allTasks.values, t.status = .running)

-- R says for which kind of task running has to imply due
structure Settled (R : Bool → Prop) (allTasks : Tasks) : Prop where
  keyed : Keyed allTasks
  due_running : ∀ t ∈ allTasks.values, IsDue (present allTasks) t → t.status = .running
  running_due : ∀ t ∈ allTasks.values, t.status = .running → R t.isExclusive →
    IsDue (present allTasks) t

theorem overTaken_eq_false_iff (x e : ScheduledTaskInstance) :
    overTaken x e = false ↔
      (Exclusive x → Exclusive e ∧ x.priorityLevel ≤ e.priorityLevel) := by
  cases hx : x.isExclusive <;> cases he : e.isExclusive <;> simp [overTaken, Exclusive, hx, he]

theorem cannotRun_eq_false_iff (x e : ScheduledTaskInstance) :
    cannotRun x e = false ↔
      (Exclusive e → Exclusive x ∧ e.priorityLevel ≤ x.priorityLevel) := by
  cases hx : x.isExclusive <;> cases he : e.isExclusive <;> simp [cannotRun, Exclusive, hx, he]

theorem not_any_cannotRun_iff (allTasks : Tasks) (x : ScheduledTaskInstance) :
    (!allTasks.values.any (cannotRun x)) = true ↔ IsDue (present allTasks) x := by
  simp only [Bool.not_eq_true', List.any_eq_false, Bool.not_eq_true]
  exact forall₂_congr (fun e _ => cannotRun_eq_false_iff x e)

theorem admitted_running_iff (allTasks : Tasks) (x : ScheduledTaskInstance) :
    (admitted allTasks x).status = .running ↔ IsDue (present allTasks) x := by
  rw [← not_any_cannotRun_iff, admitted]
  cases h : !allTasks.values.any (cannotRun x) <;> simp

theorem present_onScheduledTask {allTasks : Tasks} {x : ScheduledTaskInstance}
    (hx : allTasks.get x.id = none) :
    present (onScheduledTask allTasks x).1 =
      insert (admitted allTasks x) (pause x '' present allTasks) := by
  ext t
  have hx' : (allTasks.mapVals (pause x)).get x.id = none := by simp [hx]
  simp only [present, onScheduledTask_eq, Set.mem_ofPred_eq, GoMap.mem_values_set hx',
    GoMap.mem_values_mapVals, Set.mem_insert_iff, Set.mem_image]

theorem due_onScheduledTask {allTasks : Tasks} {x : ScheduledTaskInstance}
    (t : ScheduledTaskInstance) :
    IsDue (insert (admitted allTasks x) (pause x '' present allTasks)) (pause x t) ↔
      overTaken x t = false ∧ IsDue (present allTasks) t := by
  rw [IsDue, due_insert, overTaken_eq_false_iff]
  refine and_congr (by simp [Exclusive]) ?_
  exact due_image (by simp [Exclusive]) (by simp)

theorem due_admitted {allTasks : Tasks} {x : ScheduledTaskInstance} :
    IsDue (insert (admitted allTasks x) (pause x '' present allTasks)) (admitted allTasks x) ↔
      IsDue (present allTasks) x := by
  rw [IsDue, due_insert_self]
  simp [Due, Exclusive]

theorem settled_onScheduledTask {R : Bool → Prop} {allTasks : Tasks} {x : ScheduledTaskInstance}
    (h : Settled R allTasks) (hx : allTasks.get x.id = none) :
    Settled R (onScheduledTask allTasks x).1 := by
  have hmem : ∀ t, t ∈ (onScheduledTask allTasks x).1.values →
      t = admitted allTasks x ∨ ∃ u ∈ allTasks.values, pause x u = t := by
    intro t ht
    have ht' : t ∈ present (onScheduledTask allTasks x).1 := ht
    rw [present_onScheduledTask hx] at ht'
    exact ht'
  refine ⟨keyed_onScheduledTask h.keyed, ?_, ?_⟩
  · intro t ht hdue
    rw [present_onScheduledTask hx] at hdue
    rcases hmem t ht with rfl | ⟨u, hu, rfl⟩
    · exact (admitted_running_iff allTasks x).mpr (due_admitted.mp hdue)
    · obtain ⟨ho, hd⟩ := (due_onScheduledTask u).mp hdue
      exact (pause_running_iff x u).mpr ⟨h.due_running u hu hd, ho⟩
  · intro t ht hrun hR
    rw [present_onScheduledTask hx]
    rcases hmem t ht with rfl | ⟨u, hu, rfl⟩
    · exact due_admitted.mpr ((admitted_running_iff allTasks x).mp hrun)
    · obtain ⟨hr, ho⟩ := (pause_running_iff x u).mp hrun
      exact (due_onScheduledTask u).mpr ⟨ho, h.running_due u hu hr (by simpa using hR)⟩

theorem searchUrgent_concat (ts : List ScheduledTaskInstance) (t : ScheduledTaskInstance) :
    searchUrgent (ts ++ [t]) =
      if t.isExclusive == true && t.status != .running &&
        decide (t.priorityLevel > (searchUrgent ts).2)
      then (true, t.priorityLevel) else searchUrgent ts := by
  simp [searchUrgent]

theorem searchUrgent_bounds (ts : List ScheduledTaskInstance) :
    ∀ t ∈ ts, t.isExclusive = true → t.status ≠ .running →
      t.priorityLevel ≤ (searchUrgent ts).2 := by
  induction ts using List.reverseRecOn with
  | nil => simp
  | append_singleton ts u ih =>
    intro t ht hx hs
    rw [searchUrgent_concat]
    rcases List.mem_append.mp ht with ht | ht
    · have hle := ih t ht hx hs
      split_ifs with hc
      · simp only [Bool.and_eq_true, decide_eq_true_eq] at hc
        exact hle.trans hc.2.le
      · exact hle
    · obtain rfl : t = u := by simpa using ht
      split_ifs with hc
      · exact le_refl _
      · simpa [hx, hs] using hc

theorem searchUrgent_found (ts : List ScheduledTaskInstance) :
    ((searchUrgent ts).1 = true → 0 < (searchUrgent ts).2 ∧
      ∃ t ∈ ts, t.isExclusive = true ∧ t.priorityLevel = (searchUrgent ts).2) ∧
    ((searchUrgent ts).1 = false → (searchUrgent ts).2 = 0) := by
  induction ts using List.reverseRecOn with
  | nil => simp [searchUrgent]
  | append_singleton ts u ih =>
    rw [searchUrgent_concat]
    split_ifs with hc
    · simp only [Bool.and_eq_true, beq_iff_eq, decide_eq_true_eq] at hc
      refine ⟨fun _ => ⟨?_, u, by simp, hc.1.1, rfl⟩, by simp⟩
      cases hf : (searchUrgent ts).1 with
      | true => exact (ih.1 hf).1.trans hc.2
      | false => simpa [ih.2 hf] using hc.2
    · refine ⟨fun hf => ⟨(ih.1 hf).1, ?_⟩, ih.2⟩
      obtain ⟨t, ht, h⟩ := (ih.1 hf).2
      exact ⟨t, by simp [ht], h⟩

-- what the last running exclusive task leaves behind can be resumed without a clash
def ResumesSafely (S : Set ScheduledTaskInstance) : Prop :=
  ∀ e, Top S e →
    (0 < e.priorityLevel → ∀ u ∈ S, u.priorityLevel = e.priorityLevel → u.isExclusive = true) ∧
    (e.priorityLevel ≤ 0 → ∀ u ∈ S, u.isExclusive = true ∧ u.priorityLevel = e.priorityLevel)

theorem toResume_of_found {S : Tasks} (hf : (searchUrgent S.values).1 = true)
    (u : ScheduledTaskInstance) :
    toResume S u = true ↔ u.priorityLevel = (searchUrgent S.values).2 := by
  simp [toResume, hf]

theorem toResume_of_not_found {S : Tasks} (hf : (searchUrgent S.values).1 = false)
    (u : ScheduledTaskInstance) : toResume S u = true ↔ u.status ≠ .running := by
  simp [toResume, hf]

theorem present_insert_delete {allTasks : Tasks} {t : ScheduledTaskInstance}
    (ht : allTasks.get t.id = some t) :
    present allTasks = insert t (present (allTasks.delete t.id)) := by
  ext u
  simp only [present, Set.mem_insert_iff, Set.mem_ofPred_eq]
  rw [GoMap.mem_values_delete, GoMap.mem_values]
  constructor
  · rintro ⟨k, hk⟩
    by_cases hkt : k = t.id
    · rw [hkt, ht] at hk
      exact Or.inl (Option.some.inj hk).symm
    · exact Or.inr ⟨k, hkt, hk⟩
  · rintro (rfl | ⟨k, -, hk⟩)
    · exact ⟨u.id, ht⟩
    · exact ⟨k, hk⟩

theorem mem_of_mem_delete {allTasks : Tasks} {k : String} {u : ScheduledTaskInstance}
    (hu : u ∈ (allTasks.delete k).values) : u ∈ allTasks.values := by
  obtain ⟨j, -, hj⟩ := GoMap.mem_values_delete.mp hu
  exact GoMap.mem_values.mpr ⟨j, hj⟩

theorem settled_delete {R : Bool → Prop} {allTasks : Tasks} {t : ScheduledTaskInstance}
    (h : Settled R allTasks)
    (hdue : ∀ u, IsDue (present allTasks) u ↔ IsDue (present (allTasks.delete t.id)) u) :
    Settled R (allTasks.delete t.id) := by
  refine ⟨?_, ?_, ?_⟩
  · intro k u hk
    exact h.keyed k u (GoMap.get_of_get_delete hk).2
  · intro u hu hd
    exact h.due_running u (mem_of_mem_delete hu) ((hdue u).mpr hd)
  · intro u hu hr hR
    exact (hdue u).mp (h.running_due u (mem_of_mem_delete hu) hr hR)

theorem exists_top {allTasks : Tasks} {e : ScheduledTaskInstance} (he : e ∈ present allTasks)
    (hx : Exclusive e) : ∃ e', Top (present allTasks) e' := by
  let urgent := (allTasks.values.filter (fun t => t.isExclusive)).toFinset
  have hmem : ∀ u, u ∈ urgent ↔ u ∈ present allTasks ∧ Exclusive u := by
    intro u
    simp [urgent, present, Exclusive]
  obtain ⟨e', he', hmax⟩ := urgent.exists_max_image ScheduledTaskInstance.priorityLevel
    ⟨e, (hmem e).mpr ⟨he, hx⟩⟩
  exact ⟨e', ((hmem e').mp he').1, ((hmem e').mp he').2, fun u hu hxu =>
    hmax u ((hmem u).mpr ⟨hu, hxu⟩)⟩

theorem resumed_of_due {S : Tasks} {u : ScheduledTaskInstance} (hu : u ∈ present S)
    (hdue : IsDue (present S) u) : (resume (toResume S) u).status = .running := by
  rw [resume_running_iff]
  by_cases hrun : u.status = .running
  · exact Or.inr hrun
  · left
    cases hf : (searchUrgent S.values).1 with
    | false => exact (toResume_of_not_found hf u).mpr hrun
    | true =>
      obtain ⟨-, x, hx, hex, hl⟩ := (searchUrgent_found S.values).1 hf
      obtain ⟨hxu, hle⟩ := hdue x hx hex
      have hge := searchUrgent_bounds S.values u hu hxu hrun
      exact (toResume_of_found hf u).mpr (le_antisymm hge (hl ▸ hle))

section LastUrgent

variable {S : Tasks}
  (hnone : ∀ e ∈ S.values, e.isExclusive = true → e.status ≠ .running)
include hnone

theorem level_le_searchUrgent {e : ScheduledTaskInstance} (he : e ∈ present S)
    (hx : Exclusive e) : e.priorityLevel ≤ (searchUrgent S.values).2 :=
  searchUrgent_bounds S.values e he hx (hnone e he hx)

theorem top_level_of_found {e : ScheduledTaskInstance} (he : Top (present S) e)
    (hf : (searchUrgent S.values).1 = true) :
    e.priorityLevel = (searchUrgent S.values).2 ∧ 0 < e.priorityLevel := by
  obtain ⟨hpos, x, hx, hex, hl⟩ := (searchUrgent_found S.values).1 hf
  have heq : e.priorityLevel = (searchUrgent S.values).2 :=
    le_antisymm (level_le_searchUrgent hnone he.1 he.2.1) (hl ▸ he.2.2 x hx hex)
  exact ⟨heq, heq ▸ hpos⟩

theorem top_level_of_not_found {e : ScheduledTaskInstance} (he : Top (present S) e)
    (hf : (searchUrgent S.values).1 = false) : e.priorityLevel ≤ 0 :=
  (searchUrgent_found S.values).2 hf ▸ level_le_searchUrgent hnone he.1 he.2.1

theorem due_of_resumed_exclusive {u : ScheduledTaskInstance} (hu : u ∈ present S)
    (hxu : Exclusive u) (hr : toResume S u = true)
    (hlow : (∀ v ∈ present S, 0 ≤ v.priorityLevel) ∨ ResumesSafely (present S)) :
    IsDue (present S) u := by
  intro e he hx
  refine ⟨hxu, ?_⟩
  cases hf : (searchUrgent S.values).1 with
  | true =>
    rw [(toResume_of_found hf u).mp hr]
    exact level_le_searchUrgent hnone he hx
  | false =>
    rcases hlow with hpos | hsafe
    · have hle := level_le_searchUrgent hnone he hx
      rw [(searchUrgent_found S.values).2 hf] at hle
      exact hle.trans (hpos u hu)
    · obtain ⟨e', he'⟩ := exists_top he hx
      have hall := (hsafe e' he').2 (top_level_of_not_found hnone he' hf)
      exact ((hall e he).2.trans (hall u hu).2.symm).le

theorem exclusive_of_resumed {u e : ScheduledTaskInstance} (hu : u ∈ present S)
    (hr : toResume S u = true) (he : e ∈ present S) (hx : Exclusive e)
    (hsafe : ResumesSafely (present S)) : Exclusive u := by
  obtain ⟨e', he'⟩ := exists_top he hx
  cases hf : (searchUrgent S.values).1 with
  | true =>
    obtain ⟨heq, hpos⟩ := top_level_of_found hnone he' hf
    exact (hsafe e' he').1 hpos u hu (((toResume_of_found hf u).mp hr).trans heq.symm)
  | false =>
    exact ((hsafe e' he').2 (top_level_of_not_found hnone he' hf) u hu).1

theorem resumesSafely_of_mutualExclusion
    (hm : MutualExclusion (S.mapVals (resume (toResume S)))) : ResumesSafely (present S) := by
  have hmem : ∀ u ∈ present S, resume (toResume S) u ∈ (S.mapVals (resume (toResume S))).values :=
    fun u hu => GoMap.mem_values_mapVals.mpr ⟨u, hu, rfl⟩
  intro e he
  have hpaused : e.status ≠ .running := hnone e he.1 he.2.1
  have hclash : toResume S e = true → ∀ u ∈ present S, toResume S u = true →
      u.isExclusive = true ∧ ¬ u.priorityLevel < e.priorityLevel := by
    intro hre u hu hru
    have h := hm _ (hmem e he.1) (by simpa using he.2.1)
      ((resume_running_iff _ e).mpr (Or.inl hre)) _ (hmem u hu)
    have hrun := (resume_running_iff (toResume S) u).mpr (Or.inl hru)
    have hxu : u.isExclusive = true := by
      cases hxu : u.isExclusive with
      | true => rfl
      | false => exact absurd hrun (h.1 (by simpa using hxu))
    exact ⟨hxu, fun hlt => h.2 (by simpa using hxu) (by simpa using hlt) hrun⟩
  cases hf : (searchUrgent S.values).1 with
  | true =>
    obtain ⟨heq, hpos⟩ := top_level_of_found hnone he hf
    have hre := (toResume_of_found hf e).mpr heq
    refine ⟨fun _ u hu hl => (hclash hre u hu ?_).1, fun hle => absurd hpos hle.not_gt⟩
    exact (toResume_of_found hf u).mpr (hl.trans heq)
  | false =>
    have hle := top_level_of_not_found hnone he hf
    refine ⟨fun hpos => absurd hpos hle.not_gt, fun _ u hu => ?_⟩
    have hre := (toResume_of_not_found hf e).mpr hpaused
    by_cases hrun : u.status = .running
    · have h := hm _ (hmem e he.1) (by simpa using he.2.1)
        ((resume_running_iff _ e).mpr (Or.inl hre)) _ (hmem u hu)
      have hrun' := (resume_running_iff (toResume S) u).mpr (Or.inr hrun)
      cases hxu : u.isExclusive with
      | true => exact absurd hrun (hnone u hu hxu)
      | false => exact absurd hrun' (h.1 (by simpa using hxu))
    · have h := hclash hre u hu ((toResume_of_not_found hf u).mpr hrun)
      exact ⟨h.1, le_antisymm (he.2.2 u hu h.1) (not_lt.mp h.2)⟩

end LastUrgent

theorem settled_lastUrgent {R : Bool → Prop} {allTasks : Tasks} {t : ScheduledTaskInstance}
    (h : Settled R allTasks) (ht : allTasks.get t.id = some t) (hx : t.isExclusive = true)
    (hnone : ∀ e ∈ (allTasks.delete t.id).values, e.isExclusive = true → e.status ≠ .running)
    (hlow : ((∀ v ∈ present (allTasks.delete t.id), 0 ≤ v.priorityLevel) ∧ ¬ R false) ∨
      ResumesSafely (present (allTasks.delete t.id))) :
    Settled R ((allTasks.delete t.id).mapVals (resume (toResume (allTasks.delete t.id)))) := by
  set S := allTasks.delete t.id with hS
  have himage : present (S.mapVals (resume (toResume S))) =
      resume (toResume S) '' present S := by
    ext u
    simp only [present, Set.mem_ofPred_eq, GoMap.mem_values_mapVals, Set.mem_image]
  have hdue : ∀ u, IsDue (resume (toResume S) '' present S) (resume (toResume S) u) ↔
      IsDue (present S) u := fun u => due_image (by simp [Exclusive]) (by simp)
  refine ⟨?_, ?_, ?_⟩
  · intro k u hk
    rw [GoMap.get_mapVals, Option.map_eq_some_iff] at hk
    obtain ⟨v, hv, rfl⟩ := hk
    simpa using h.keyed k v (GoMap.get_of_get_delete hv).2
  · intro u hu hd
    obtain ⟨v, hv, rfl⟩ := GoMap.mem_values_mapVals.mp hu
    rw [himage] at hd
    exact resumed_of_due hv ((hdue v).mp hd)
  · intro u hu hr hR
    obtain ⟨v, hv, rfl⟩ := GoMap.mem_values_mapVals.mp hu
    rw [resume_isExclusive] at hR
    rw [himage, hdue]
    cases hxv : v.isExclusive with
    | true =>
      have hp : toResume S v = true :=
        ((resume_running_iff _ v).mp hr).resolve_right (hnone v hv hxv)
      exact due_of_resumed_exclusive hnone hv hxv hp (hlow.imp (fun hl => hl.1) id)
    | false =>
      rw [hxv] at hR
      have hsafe := hlow.resolve_left (fun hl => hl.2 hR)
      have hpaused : v.status ≠ .running := by
        intro hrun
        have hd := h.running_due v (mem_of_mem_delete hv) hrun (hxv ▸ hR)
        rw [present_insert_delete ht] at hd
        have := (hd t (Set.mem_insert _ _) hx).1
        simp [Exclusive, hxv] at this
      have hp : toResume S v = true := ((resume_running_iff _ v).mp hr).resolve_right hpaused
      refine due_of_none_exclusive (fun e he hxe => ?_)
      have := exclusive_of_resumed hnone hv hp he hxe hsafe
      simp [Exclusive, hxv] at this

theorem settled_onTerminateTask {R : Bool → Prop} (hR : R true) {allTasks : Tasks}
    {taskID : String} (h : Settled R allTasks)
    (hlow : ∀ t, allTasks.get taskID = some t → t.isExclusive = true →
      (∀ e ∈ (allTasks.delete t.id).values, e.isExclusive = true → e.status ≠ .running) →
      ((∀ v ∈ present (allTasks.delete t.id), 0 ≤ v.priorityLevel) ∧ ¬ R false) ∨
        ResumesSafely (present (allTasks.delete t.id))) :
    Settled R (onTerminateTask allTasks taskID).1 := by
  cases ht : allTasks.get taskID with
  | none => simpa [onTerminateTask, ht] using h
  | some t =>
    have hid : allTasks.get t.id = some t := by rw [h.keyed taskID t ht, ht]
    have hcases := onTerminateTask_cases ht
    generalize (onTerminateTask allTasks taskID).1 = next at hcases ⊢
    cases hcases with
    | ordinary hx =>
      refine settled_delete h (fun u => ?_)
      rw [present_insert_delete hid]
      exact due_insert_of_not_exclusive (by simp [Exclusive, hx])
    | urgentLeft e hx he hxe hrun =>
      refine settled_delete h (fun u => ?_)
      have hdue := h.running_due e (mem_of_mem_delete he) hrun (hxe ▸ hR)
      rw [present_insert_delete hid] at hdue ⊢
      exact due_insert_of_due he hxe hdue
    | lastUrgent hx hnone => exact settled_lastUrgent h hid hx hnone (hlow t ht hx hnone)

theorem mutualExclusion_of_settled {allTasks : Tasks} (h : Settled (fun _ => True) allTasks) :
    MutualExclusion allTasks := by
  intro e he hx _ u hu
  have hdue : u.status = .running → Exclusive u ∧ e.priorityLevel ≤ u.priorityLevel :=
    fun hr => h.running_due u hu hr trivial e he hx
  constructor
  · intro hxu hr
    have := (hdue hr).1
    simp [Exclusive, hxu] at this
  · intro _ hlt hr
    exact absurd hlt (hdue hr).2.not_gt

theorem noStarvation_of_settled {R : Bool → Prop} {allTasks : Tasks} (h : Settled R allTasks) :
    NoStarvation allTasks := by
  constructor
  · intro _ t ht hx hmax
    exact h.due_running t ht (fun u hu hxu => ⟨hx, hmax u hu hxu⟩)
  · intro hnone t ht
    exact h.due_running t ht (due_of_none_exclusive (fun e he => by simp [Exclusive, hnone e he]))

end FogFlow.Worker
