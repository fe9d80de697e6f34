import FogFlow.Worker.Preemption

namespace FogFlow.Worker

open Datamodel Execution Preemption

-- every task of the list is one of those scheduled before, at its own level
def Provenance (commands : List Command) (allTasks : Tasks) : Prop :=
  ∀ k t, allTasks.get k = some t →
    ∃ x ∈ scheduledTasks commands, x.id = k ∧ x.priorityLevel = t.priorityLevel

theorem scheduledTasks_append (cs ds : List Command) :
    scheduledTasks (cs ++ ds) = scheduledTasks cs ++ scheduledTasks ds := by
  simp [scheduledTasks]

theorem provenance_onScheduledTask {cs : List Command} {allTasks : Tasks}
    {x : ScheduledTaskInstance} (h : Provenance cs allTasks) :
    Provenance (cs ++ [.scheduled x]) (onScheduledTask allTasks x).1 := by
  intro k t hk
  rw [scheduledTasks_append]
  rcases get_onScheduledTask hk with ⟨rfl, rfl⟩ | ⟨-, u, hu, rfl⟩
  · exact ⟨x, by simp [scheduledTasks], rfl, rfl⟩
  · obtain ⟨y, hy, hyk, hl⟩ := h k u hu
    exact ⟨y, List.mem_append_left _ hy, hyk, by simpa using hl⟩

theorem provenance_step {cs : List Command} {allTasks next : Tasks} {c : Command}
    (h : Provenance cs allTasks) (hs : step allTasks c = some next) :
    Provenance (cs ++ [c]) next := by
  cases c with
  | scheduled x =>
    obtain rfl := Option.some.inj hs
    exact provenance_onScheduledTask h
  | terminated taskID =>
    obtain rfl := Option.some.inj hs
    intro k u hu
    obtain ⟨v, hv, -, hl⟩ := get_onTerminateTask hu
    obtain ⟨x, hx, hxk, hxl⟩ := h k v hv
    refine ⟨x, ?_, hxk, hxl.trans hl⟩
    rw [scheduledTasks_append]
    exact List.mem_append_left _ hx

theorem get_none_of_nodup {cs : List Command} {allTasks : Tasks} {x : ScheduledTaskInstance}
    (h : Provenance cs allTasks)
    (hnd : ((scheduledTasks (cs ++ [.scheduled x])).map ScheduledTaskInstance.id).Nodup) :
    allTasks.get x.id = none := by
  rw [Option.eq_none_iff_forall_ne_some]
  intro t ht
  obtain ⟨y, hy, hyx, -⟩ := h x.id t ht
  rw [scheduledTasks_append, List.map_append, List.nodup_append] at hnd
  exact hnd.2.2 y.id (List.mem_map_of_mem hy) x.id (by simp [scheduledTasks]) hyx

theorem scheduledTasks_of_shorter {cs ds : List Command} (h : cs <+: ds) :
    scheduledTasks cs <+: scheduledTasks ds := by
  obtain ⟨es, rfl⟩ := h
  rw [scheduledTasks_append]
  exact List.prefix_append _ _

theorem nodup_of_shorter {cs ds : List Command} (h : cs <+: ds)
    (hnd : ((scheduledTasks ds).map ScheduledTaskInstance.id).Nodup) :
    ((scheduledTasks cs).map ScheduledTaskInstance.id).Nodup :=
  hnd.sublist ((scheduledTasks_of_shorter h).sublist.map _)

theorem level_nonneg {cs ds : List Command} {allTasks : Tasks} (hp : Provenance cs allTasks)
    (h : cs <+: ds) (hpos : ∀ x ∈ scheduledTasks ds, 0 ≤ x.priorityLevel)
    {v : ScheduledTaskInstance} (hv : v ∈ allTasks.values) : 0 ≤ v.priorityLevel := by
  obtain ⟨k, hk⟩ := GoMap.mem_values.mp hv
  obtain ⟨x, hx, -, hl⟩ := hp k v hk
  exact hl ▸ hpos x ((scheduledTasks_of_shorter h).subset hx)

theorem settled_empty (R : Bool → Prop) : Settled R ∅ :=
  ⟨keyed_empty, by simp [GoMap.mem_values], by simp [GoMap.mem_values]⟩

-- when the last running exclusive task is terminated, the tasks left behind can be resumed
def ResumeCondition (allTasks : Tasks) : Command → Prop
  | .scheduled _ => True
  | .terminated taskID => ∀ t, allTasks.get taskID = some t → t.isExclusive = true →
      (∀ e ∈ (allTasks.delete taskID).values, e.isExclusive = true → e.status ≠ .running) →
      ResumesSafely (present (allTasks.delete taskID))

theorem settled_step {cs : List Command} {allTasks next : Tasks} {c : Command}
    (h : Settled (fun _ => True) allTasks) (hp : Provenance cs allTasks)
    (hnd : ((scheduledTasks (cs ++ [c])).map ScheduledTaskInstance.id).Nodup)
    (hc : ResumeCondition allTasks c) (hs : step allTasks c = some next) :
    Settled (fun _ => True) next := by
  cases c with
  | scheduled x =>
    obtain rfl := Option.some.inj hs
    exact settled_onScheduledTask h (get_none_of_nodup hp hnd)
  | terminated taskID =>
    obtain rfl := Option.some.inj hs
    refine settled_onTerminateTask trivial h (fun t ht hx hnone => Or.inr ?_)
    rw [h.keyed taskID t ht] at hnone ⊢
    exact hc t ht hx hnone

theorem resumeCondition_of_mutualExclusion {allTasks next : Tasks} {c : Command}
    (h : Settled (fun _ => True) allTasks) (hs : step allTasks c = some next)
    (hm : MutualExclusion next) : ResumeCondition allTasks c := by
  cases c with
  | scheduled x => trivial
  | terminated taskID =>
    obtain rfl := Option.some.inj hs
    intro t ht hx hnone
    have hid := h.keyed taskID t ht
    have hcases := onTerminateTask_cases ht
    generalize (onTerminateTask allTasks taskID).1 = next at hcases hm
    rw [← hid] at hnone ⊢
    cases hcases with
    | ordinary hx' => simp [hx] at hx'
    | urgentLeft e _ he hxe hr => exact absurd hr (hnone e he hxe)
    | lastUrgent _ _ => exact resumesSafely_of_mutualExclusion hnone hm

theorem mutual_exclusion_iff {commands : List Command}
    (hnd : ((scheduledTasks commands).map ScheduledTaskInstance.id).Nodup) :
    Always step MutualExclusion ∅ commands ↔ Meets step ResumeCondition ∅ commands := by
  have hstep : ∀ allTasks c, (step allTasks c).isSome := fun _ c => by cases c <;> rfl
  obtain ⟨last, hrun⟩ := exec_total hstep ∅ commands
  refine always_iff_meets
    (I := fun cs s => Settled (fun _ => True) s ∧ Provenance cs s) hrun
    ⟨settled_empty _, by simp [Provenance]⟩ (by simp [MutualExclusion, GoMap.mem_values]) ?_ ?_
  · intro cs c s t hpre ⟨hset, hprov⟩ hc hs
    exact ⟨settled_step hset hprov (nodup_of_shorter hpre hnd) hc hs, provenance_step hprov hs⟩
  · intro cs c s t hpre ⟨hset, hprov⟩ hs
    constructor
    · intro hc
      exact mutualExclusion_of_settled
        (settled_step hset hprov (nodup_of_shorter hpre hnd) hc hs)
    · exact resumeCondition_of_mutualExclusion hset hs

-- a regular task shares its level with the exclusive task that is resumed by level
def clash : List Command :=
  [.scheduled (exampleTask "regular" false 5), .scheduled (exampleTask "urgent" true 5),
    .scheduled (exampleTask "top" true 10), .terminated "top"]

theorem mutual_exclusion_fails :
    ((scheduledTasks clash).map ScheduledTaskInstance.id).Nodup ∧
      ¬ Always step MutualExclusion ∅ clash := by
  refine ⟨by decide, fun h => ?_⟩
  have hrun : ∃ s, exec step ∅ clash = some s ∧
      { exampleTask "urgent" true 5 with status := .running } ∈ s.values ∧
      { exampleTask "regular" false 5 with status := .running } ∈ s.values := by
    refine ⟨_, rfl, ?_, ?_⟩ <;> decide
  obtain ⟨s, hs, hurgent, hregular⟩ := hrun
  exact (h clash s (List.prefix_refl _) hs _ hurgent rfl rfl _ hregular).1 rfl rfl

theorem mutual_exclusion_arrivals : Always step MutualExclusion ∅ (clash.take 3) := by
  refine (mutual_exclusion_iff (by decide)).mpr ?_
  intro cs c s hpre _
  have hc : c ∈ clash.take 3 := hpre.subset (by simp)
  simp only [clash, List.take, List.mem_cons, List.not_mem_nil, or_false] at hc
  rcases hc with rfl | rfl | rfl <;> trivial

theorem no_starvation {commands : List Command}
    (hnd : ((scheduledTasks commands).map ScheduledTaskInstance.id).Nodup)
    (hpos : ∀ t ∈ scheduledTasks commands, 0 ≤ t.priorityLevel) :
    Always step NoStarvation ∅ commands := by
  intro cs s hpre hrun
  have key : Settled (· = true) s ∧ Provenance cs s := by
    refine exec_induction (motive := fun cs s => Settled (· = true) s ∧ Provenance cs s) hrun
      ⟨settled_empty _, by simp [Provenance]⟩ ?_
    intro ds c r t hds _ ⟨hset, hprov⟩ hs
    refine ⟨?_, provenance_step hprov hs⟩
    have hpre' := hds.trans hpre
    cases c with
    | scheduled x =>
      obtain rfl := Option.some.inj hs
      exact settled_onScheduledTask hset (get_none_of_nodup hprov (nodup_of_shorter hpre' hnd))
    | terminated taskID =>
      obtain rfl := Option.some.inj hs
      refine settled_onTerminateTask (R := (· = true)) rfl hset
        (fun t _ _ _ => Or.inl ⟨fun v hv => ?_, by simp⟩)
      exact level_nonneg hprov ((List.prefix_append _ _).trans hpre') hpos (mem_of_mem_delete hv)
  exact noStarvation_of_settled key.1

theorem no_starvation_clash : Always step NoStarvation ∅ clash :=
  no_starvation (by decide) (by decide)

end FogFlow.Worker
