import FogFlow.Master.Migration

namespace FogFlow.Master

open Ngsi Datamodel Loop Execution Leases

variable {marshal : GroupValue → String} {type : String → String}

-- the flow with the calls made for the last event and those made for the events before it
structure Traced where
  flow : FogFlow
  earlier : List Command
  commands : List Command

def trace (marshal : GroupValue → String) (s : Traced) (e : Event) : Option Traced :=
  match handleUpdate marshal s.flow e with
  | .error _ => none
  | .ok result => some ⟨result.1, s.earlier ++ s.commands, result.2⟩

-- the call goes to the worker of the last deployment, and a task that has been deployed before
-- is deployed again only right after it has been terminated there for the same event
def CallRouted (earlier before : List Command) : Command → Prop
  | .deployTask t => ∀ w, lastWorker t.id (earlier ++ before) = some w →
      ∃ begun, before = begun ++ [.terminateTask t.id w]
  | .terminateTask taskID workerID => lastWorker taskID (earlier ++ before) = some workerID
  | .addInputEntity flowInfo =>
      lastWorker flowInfo.taskInstanceID (earlier ++ before) = some flowInfo.workerID
  | .removeInputEntity _ _ _ => True

structure Routed (s : Traced) : Prop where
  calls : ∀ before command after, s.commands = before ++ command :: after →
    CallRouted s.earlier before command
  workers : ∀ h task, s.flow.executionPlan.get h = some task →
    ∃ scheduled, s.flow.deploymentPlan.get task.taskID = some scheduled ∧
      scheduled.workerID = task.workerID
  live : ∀ id before, before <+: s.earlier ++ s.commands →
    deployments id before ≤ terminations id before + 1

-- the calls made so far track the planned tasks, and a task once deployed is deployed still
structure Moored (marshal : GroupValue → String) (type : String → String) (s : Traced) : Prop where
  covered : Covered marshal type s.flow
  ready : Ready s.flow
  placed : Placed s.flow
  tracks : Tracks s.flow (opsOf (s.earlier ++ s.commands))
  ever : ∀ id w, lastWorker id (s.earlier ++ s.commands) = some w →
    (id, w) ∈ running (opsOf (s.earlier ++ s.commands))

section Calls

variable {flow : FogFlow} {earlier commands before after : List Command} {actions : Actions}
  {live : String → Option String}

theorem forall₂_split {α β : Type} {R : α → β → Prop} {xs : List α} {ys zs : List β} {y : β}
    (h : List.Forall₂ R xs (ys ++ y :: zs)) :
    ∃ as a bs, xs = as ++ a :: bs ∧ List.Forall₂ R as ys ∧ R a y ∧ List.Forall₂ R bs zs := by
  induction ys generalizing xs with
  | nil =>
    cases h with
    | cons hr hrest => exact ⟨[], _, _, rfl, .nil, hr, hrest⟩
  | cons z ys ih =>
    cases h with
    | @cons x _ xs _ hr hrest =>
      obtain ⟨as, a, bs, rfl, has, ha⟩ := ih hrest
      exact ⟨x :: as, a, bs, rfl, .cons hr has, ha⟩

theorem Blocks.before_addTask {as bs : Actions} {t : ScheduledTaskInstance}
    (h : Blocks live (as ++ some (.addTask t) :: bs)) : live t.id = none ∨
      ∃ begun w, as = begun ++ [some (.removeTask t.id w)] ∧ live t.id = some w := by
  generalize heq : as ++ some (.addTask t) :: bs = actions at h
  induction h generalizing as with
  | nil => simp at heq
  | input flowInfo _ ih =>
    rcases List.append_eq_cons_iff.mp heq with ⟨rfl, hhead⟩ | ⟨as', rfl, hrest⟩
    · simp at hhead
    · exact (ih hrest.symm).imp_right (fun ⟨begun, w, hsplit, hw⟩ =>
        ⟨_ :: begun, w, by rw [hsplit]; rfl, hw⟩)
  | create t' hnone _ ih =>
    rcases List.append_eq_cons_iff.mp heq with ⟨rfl, hhead⟩ | ⟨as', rfl, hrest⟩
    · obtain ⟨hhead, -⟩ := List.cons.inj hhead
      obtain rfl := DeploymentAction.addTask.inj (Option.some.inj hhead)
      exact Or.inl hnone
    · exact (ih hrest.symm).imp_right (fun ⟨begun, w, hsplit, hw⟩ =>
        ⟨_ :: begun, w, by rw [hsplit]; rfl, hw⟩)
  | migrate t' taskID worker hid hsome _ ih =>
    rcases List.append_eq_cons_iff.mp heq with ⟨rfl, hhead⟩ | ⟨as', rfl, hrest⟩
    · simp at hhead
    · rcases List.append_eq_cons_iff.mp hrest.symm with ⟨rfl, hhead⟩ | ⟨as'', rfl, htail⟩
      · obtain ⟨hhead, -⟩ := List.cons.inj hhead
        obtain rfl := DeploymentAction.addTask.inj (Option.some.inj hhead)
        exact Or.inr ⟨[], worker, by rw [hid]; rfl, hid ▸ hsome⟩
      · exact (ih htail.symm).imp_right (fun ⟨begun, w, hsplit, hw⟩ =>
          ⟨_ :: _ :: begun, w, by rw [hsplit]; rfl, hw⟩)

theorem callRouted_of_blocks {command : Command} (hb : Blocks (assigned flow) actions)
    (hc : List.Forall₂ CarriedOut actions commands) (hcalm : Calm flow actions)
    (ht : Tracks flow (opsOf earlier))
    (hever : ∀ id w, lastWorker id earlier = some w → (id, w) ∈ running (opsOf earlier))
    (hproper : Proper (opsOf earlier ++ opsOf commands))
    (hsplit : commands = before ++ command :: after) : CallRouted earlier before command := by
  obtain ⟨as, a, bs, hactions, has, ha, -⟩ := forall₂_split (hsplit ▸ hc)
  have hops : opsOf earlier ++ opsOf commands =
      opsOf (earlier ++ before) ++ opsOf (command :: after) := by
    rw [hsplit, opsOf_append, opsOf_append, List.append_assoc]
  rw [hops] at hproper
  match command with
  | .terminateTask taskID workerID =>
    have hrunning : (taskID, workerID) ∈ running (opsOf (earlier ++ before)) := hproper.allowed
    exact hproper.shorter.last_of_running hrunning
  | .addInputEntity flowInfo =>
    match a with
    | some (.addInput flowInfo') =>
      obtain rfl : flowInfo = flowInfo' := ha
      obtain ⟨hassigned, hnot⟩ := hcalm.inputs flowInfo (by simp [hactions])
      have hkeys := keys_of_not_added hb hc hnot
      have hrunning : (flowInfo.taskInstanceID, flowInfo.workerID) ∈
          running (opsOf (earlier ++ before)) := by
        rw [opsOf_append, mem_running_append, ht.live]
        · exact hassigned
        · intro op hop
          refine hkeys op ?_
          rw [hsplit, opsOf_append]
          exact List.mem_append_left _ hop
      exact hproper.shorter.last_of_running hrunning
  | .deployTask t =>
    match a with
    | some (.addTask taskInstance) =>
      have hid : t.id = taskInstance.id := by rw [ha.2]
      intro w hlast
      have hnd := hcalm.nodup
      rw [hactions, adds_append, List.nodup_append] at hnd
      rcases (hactions ▸ hb).before_addTask with hnone | ⟨begun, worker, rfl, -⟩
      · have hnot : NotAssigned t.id (opsOf before) := by
          intro v hv
          obtain ⟨t', hmem, heq, -⟩ := assign_mem_opsOf.mp hv
          have hin := added_of_deployTask has hmem
          exact hnd.2.2 _ hin taskInstance.id List.mem_cons_self (heq.trans hid)
        rw [lastWorker, opsOf_append, lastAssigned_append hnot] at hlast
        have hassigned := (ht.live _ _).mp (hever t.id w hlast)
        rw [hid, hnone] at hassigned
        cases hassigned
      · obtain ⟨begun', command, rest, rfl, -, hremove, hrest⟩ := forall₂_split has.flip
        cases hrest
        obtain rfl := carriedOut_removeTask hremove
        have hbegun : opsOf (earlier ++ (begun' ++ [.terminateTask taskInstance.id worker])) =
            opsOf (earlier ++ begun') ++ [.release taskInstance.id worker] := by
          rw [← List.append_assoc, opsOf_append]
          rfl
        rw [hbegun] at hproper
        have hbefore := proper_concat_iff.mp hproper.shorter
        have hworker := hbefore.1.last_of_running hbefore.2
        rw [lastWorker, hbegun, lastAssigned_concat, hid] at hlast
        obtain rfl : worker = w := Option.some.inj (hworker.symm.trans hlast)
        exact ⟨begun', by rw [hid]⟩
  | .removeInputEntity _ _ _ => trivial

end Calls

theorem trace_eq_some {s t : Traced} {e : Event} : trace marshal s e = some t ↔
    ∃ orchestrated, metadataDrivenTaskOrchestration marshal e.choices s.flow e.subID
        e.entityAction e.registeredEntity = .ok orchestrated ∧
      runActions e.selectWorker 0 orchestrated.1 orchestrated.2 = .ok (t.flow, t.commands) ∧
      t.earlier = s.earlier ++ s.commands := by
  unfold trace handleUpdate
  cases ho : metadataDrivenTaskOrchestration marshal e.choices s.flow e.subID e.entityAction
      e.registeredEntity with
  | error fault => simp [bind, Except.bind]
  | ok orchestrated =>
    rw [ok_bind]
    cases hrun : runActions e.selectWorker 0 orchestrated.1 orchestrated.2 with
    | error fault => simp [hrun]
    | ok result =>
      simp only [Option.some.injEq, Except.ok.injEq, exists_eq_left']
      rw [hrun]
      constructor
      · rintro rfl
        exact ⟨rfl, rfl⟩
      · rintro ⟨hresult, hearlier⟩
        rw [Except.ok.inj hresult, ← hearlier]

theorem Placed.sameTasks {flow next : FogFlow} (h : Placed flow)
    (hsubs : next.subscriptions = flow.subscriptions)
    (hsame : SameTasks flow.executionPlan next.executionPlan) : Placed next := by
  intro k task hk
  obtain ⟨old, hold, -, hin⟩ := hsame.exists_task hk
  rw [hsubs, hin]
  exact h k old hold

-- whatever was deployed once is still deployed when the event has been handled
theorem ever_append {earlier commands : List Command} {actions : Actions} {flow next : FogFlow}
    {live : String → Option String} (hb : Blocks live actions)
    (hran : Ran flow actions next commands)
    (hever : ∀ id w, lastWorker id earlier = some w → (id, w) ∈ running (opsOf earlier))
    (hproper : Proper (opsOf earlier ++ opsOf commands))
    (hdeployed : ∀ t, .deployTask t ∈ commands →
      (t.id, t.workerID) ∈ running (opsOf earlier ++ opsOf commands)) :
    ∀ id w, lastWorker id (earlier ++ commands) = some w →
      (id, w) ∈ running (opsOf (earlier ++ commands)) := by
  intro id w hlast
  rw [lastWorker, opsOf_append] at hlast
  rw [opsOf_append]
  by_cases hid : id ∈ adds actions
  · obtain ⟨t, hmem, rfl, -⟩ := hran.assigned id hid
    have hrunning := hdeployed t hmem
    rw [hproper.last_of_running hrunning] at hlast
    rw [← Option.some.inj hlast]
    exact hrunning
  · have hkeys := keys_of_not_added hb hran.carried hid
    have hnot : NotAssigned id (opsOf commands) := fun v hv => hkeys _ hv rfl
    rw [lastAssigned_append hnot] at hlast
    rw [mem_running_append hkeys]
    exact hever id w hlast

theorem moored_step {s : Traced} {e : Event} (h : Moored marshal type s)
    (he : Announces type s.flow.subscriptions e)
    (hno : NoCollision marshal (receiveEvent s.flow.subscriptions e)) :
    ∃ t, trace marshal s e = some t ∧ t.flow.subscriptions = receiveEvent s.flow.subscriptions e ∧
      Moored marshal type t ∧ Routed t := by
  obtain ⟨next, hstep, hsubs, hcovered⟩ := covered_step h.covered he hno
  obtain ⟨before, state, hsame, ho, hexpanding, hcalm, hplaced⟩ :=
    orchestration_calm h.covered h.ready h.placed he hno
  have hready := h.ready.congr hsame
  have htracks := h.tracks.congr hsame
  obtain ⟨next', commands, hrun, hran, hready'⟩ := ran_of_expanding hready hexpanding hcalm.nodup
    (fun _ _ _ _ _ => he.answered _ _)
  obtain ⟨state', commands', ho', hrun'⟩ := step_eq_some.mp hstep
  obtain rfl := Except.ok.inj (ho.symm.trans ho')
  obtain ⟨rfl, rfl⟩ := Prod.mk.inj (Except.ok.inj (hrun.symm.trans hrun'))
  have hscheduled := scheduled_runActions hrun
  have htracks' := htracks.expanded hexpanding hcalm.nodup hran hscheduled.executionPlan
  have hblocks := hexpanding.blocks hcalm.nodup
  have hdeployed := (proper_of_blocks hblocks hran.carried htracks.proper
    (fun id _ w => htracks.live id w) hcalm.nodup).2
  refine ⟨⟨next', s.earlier ++ s.commands, commands⟩, trace_eq_some.mpr ⟨state, ho, hrun, rfl⟩,
    hsubs, ⟨hcovered, hready', hplaced.sameTasks hscheduled.subscriptions
      hscheduled.executionPlan, opsOf_append _ _ ▸ htracks', ?_⟩, ?_, ?_, ?_⟩
  · exact ever_append hblocks hran h.ever htracks'.proper hdeployed
  · intro begun command after hsplit
    exact callRouted_of_blocks hblocks hran.carried hcalm htracks h.ever htracks'.proper hsplit
  · intro k task hk
    obtain ⟨scheduled, hs, hworker, -⟩ := hready'.deployed k task hk
    exact ⟨scheduled, hs, hworker⟩
  · rintro id begun ⟨rest, hrest⟩
    have hproper := htracks'.proper
    rw [← opsOf_append, ← hrest, opsOf_append] at hproper
    exact hproper.shorter.assigns_le id

theorem routed_run {s : Traced} {events : List Event} (h : Moored marshal type s) (hs : Routed s)
    (he : ∀ e ∈ events, Announces type s.flow.subscriptions e)
    (hno : NoCollision marshal (receiveAll s.flow.subscriptions events)) :
    ∃ last, exec (trace marshal) s events = some last ∧ Routed last := by
  obtain ⟨last, hrun, -, -, hrouted⟩ := exec_of_events
    (I := fun s => Moored marshal type s ∧ Routed s) (fun _ h => h.1.covered.streams)
    (fun _ _ h he hno => moored_step h.1 he hno) ⟨h, hs⟩ he hno
  exact ⟨last, hrun, hrouted⟩

theorem moored_established {flow : FogFlow} (h : Established flow)
    (hs : Streams flow.subscriptions) : Moored marshal type ⟨flow, [], []⟩ where
  covered := covered_established h hs
  ready := ready_established h
  placed := by simp [Placed, h.executionPlan]
  tracks := by
    refine ⟨.nil, fun id w => ?_⟩
    rw [assigned_eq_some_iff]
    simp [opsOf, h.executionPlan]
  ever := by simp [lastWorker, opsOf]

theorem routed_established {flow : FogFlow} (h : Established flow) : Routed ⟨flow, [], []⟩ where
  calls := by simp
  workers := by simp [h.executionPlan]
  live := by
    intro id before hp
    obtain rfl : before = [] := List.prefix_nil.mp hp
    exact Nat.zero_le _

theorem streams_receiveAll {subscriptions : GoMap InputSubscription} (h : Streams subscriptions)
    (events : List Event) : Streams (receiveAll subscriptions events) := by
  induction events generalizing subscriptions with
  | nil => exact h
  | cons e events ih => exact ih (streams_receiveEvent h e)

theorem calls_routed {flow₀ : FogFlow} {events : List Event} (hinit : Established flow₀)
    (hs : Streams flow₀.subscriptions)
    (he : ∀ e ∈ events, Announces type flow₀.subscriptions e)
    (hno : NoCollision marshal (receiveAll flow₀.subscriptions events)) :
    (∃ s, exec (trace marshal) ⟨flow₀, [], []⟩ events = some s) ∧
      Always (trace marshal) Routed ⟨flow₀, [], []⟩ events := by
  have hrun : ∀ before, before <+: events →
      ∃ s, exec (trace marshal) ⟨flow₀, [], []⟩ before = some s ∧ Routed s := by
    rintro before ⟨rest, rfl⟩
    refine routed_run (moored_established hinit hs) (routed_established hinit)
      (fun e hin => he e (List.mem_append_left _ hin)) (fun g g' hg hg' => ?_)
    have hmono : ∀ c, Combination (receiveAll flow₀.subscriptions before) c →
        Combination (receiveAll flow₀.subscriptions (before ++ rest)) c := by
      intro c hc
      rw [receiveAll, List.foldl_append]
      exact combination_receiveAll (streams_receiveAll hs before) hc
    exact hno g g' (hmono g hg) (hmono g' hg')
  refine ⟨(hrun events (List.prefix_refl _)).imp (fun s hs => hs.1), fun before s hp hbefore => ?_⟩
  obtain ⟨s', hs', hrouted⟩ := hrun before hp
  obtain rfl := Option.some.inj (hbefore.symm.trans hs')
  exact hrouted

def movedCamera : EntityRegistration :=
  { exampleEntity "cam" "Camera" with
    metadataList := (∅ : GoMap ContextMetadata).set "location"
      ⟨"location", "point", .point ⟨49, 8⟩, .null⟩ }

-- the camera moves, and the worker near its new place is another one
def cameraMoves : Event where
  subID := "subCamera"
  entityAction := .update
  registeredEntity := movedCamera
  choices := { exampleChoices with workerSelection := fun _ _ _ => "other" }
  selectWorker := fun _ _ => "other"

theorem moved_camera_routed :
    ((∃ s, exec (trace exampleMarshal) ⟨camerasAndSite, [], []⟩ (siteThenCamera ++ [cameraMoves]) =
        some s) ∧
      Always (trace exampleMarshal) Routed ⟨camerasAndSite, [], []⟩
        (siteThenCamera ++ [cameraMoves])) ∧
    (exec (trace exampleMarshal) ⟨camerasAndSite, [], []⟩ (siteThenCamera ++ [cameraMoves])).map
      (fun s => (s.earlier.length, s.commands.length)) = some (1, 2) := by
  have hevents : ∀ e ∈ siteThenCamera ++ [cameraMoves],
      e = exampleEvent "subSite" .create "site" "Site" ∨
        e = exampleEvent "subCamera" .create "cam" "Camera" ∨ e = cameraMoves := by
    intro e he
    simpa [siteThenCamera, or_assoc] using he
  refine ⟨@calls_routed exampleMarshal siteOrCamera _ _ (established_exampleFlow _)
    streams_camerasAndSite ?_ (noCollision_camerasAndSite ?_), by decide +kernel⟩
  · intro e he
    rcases hevents e he with rfl | rfl | rfl
    · exact announces_camerasAndSite (by simp [exampleEvent, exampleEntity])
        (by simp [exampleEvent]) (decoded_exampleEntity _ _) (by simp [exampleEvent])
    · exact announces_camerasAndSite (by simp [exampleEvent, exampleEntity])
        (by simp [exampleEvent]) (decoded_exampleEntity _ _) (by simp [exampleEvent])
    · refine announces_camerasAndSite (Or.inr ⟨rfl, rfl⟩) (by simp [cameraMoves]) ?_
        (by simp [cameraMoves])
      intro m hm _
      have hvalues : movedCamera.metadataList.values =
          [⟨"location", "point", .point ⟨49, 8⟩, .null⟩] := rfl
      rw [show cameraMoves.registeredEntity = movedCamera from rfl, hvalues] at hm
      exact ⟨⟨49, 8⟩, by rw [List.mem_singleton.mp hm]⟩
  · intro e he
    rcases hevents e he with rfl | rfl | rfl
    · simp [exampleEvent]
    · simp [exampleEvent, exampleEntity]
    · exact fun _ => rfl

end FogFlow.Master
