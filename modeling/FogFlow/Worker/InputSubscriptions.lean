import FogFlow.Worker.DelayedInputs

namespace FogFlow.Worker

open Ngsi Datamodel Execution

variable {e e' : Executor} {t : String} {taskCtx : TaskContext}

-- the subscription ids that the broker gave for a list of inputs
def subscribedIDs (inputs : List InputStream) (answers : Nat → Option String) : List String :=
  inputs.zipIdx.filterMap (fun input => answers input.2)

def unsubscribed (calls : List Call) : List String :=
  calls.filterMap (fun
    | .unsubscribe sid => some sid
    | _ => none)

theorem unsubscribed_append (calls calls' : List Call) :
    unsubscribed (calls ++ calls') = unsubscribed calls ++ unsubscribed calls' :=
  List.filterMap_append ..

theorem unsubscribed_subscribeCalls (inputs : List InputStream) :
    unsubscribed (subscribeCalls taskCtx inputs) = [] := by
  simp [unsubscribed, subscribeCalls]

theorem unsubscribed_cleanUpCalls (termination : Terminating) :
    unsubscribed (cleanUpCalls taskCtx termination) = taskCtx.subscriptions := by
  simp [unsubscribed, cleanUpCalls, List.filterMap_map]

-- the map holds ids of the list, each under one entity
structure Consistent (taskCtx : TaskContext) : Prop where
  single : taskCtx.subscriptions.Nodup
  listed : ∀ entity sid, taskCtx.entityID2SubID.get entity = some sid →
    sid ∈ taskCtx.subscriptions
  injective : ∀ entity entity' sid, taskCtx.entityID2SubID.get entity = some sid →
    taskCtx.entityID2SubID.get entity' = some sid → entity = entity'

theorem consistent_taskContext (task : ScheduledTaskInstance) (containerID : Nat)
    (refURL : String) : Consistent (taskContext task containerID refURL) where
  single := List.nodup_nil
  listed := by simp [taskContext]
  injective := by simp [taskContext]

theorem subscriptions_subscribed (inputStream : InputStream) (answer : Option String) :
    (subscribed taskCtx inputStream answer).subscriptions =
      taskCtx.subscriptions ++ answer.toList := by
  cases answer with
  | none => simp [subscribed]
  | some subID => rfl

theorem consistent_subscribed (h : Consistent taskCtx) {inputStream : InputStream}
    {answer : Option String} (hnew : (taskCtx.subscriptions ++ answer.toList).Nodup) :
    Consistent (subscribed taskCtx inputStream answer) := by
  cases answer with
  | none => exact h
  | some subID =>
    have hfresh : subID ∉ taskCtx.subscriptions := by
      intro hmem
      exact List.disjoint_of_nodup_append hnew hmem (by simp)
    have hold {entity sid : String} (hget : taskCtx.entityID2SubID.get entity = some sid) :
        sid ≠ subID := by
      rintro rfl
      exact hfresh (h.listed entity sid hget)
    refine ⟨hnew, fun entity sid hget => ?_, fun entity entity' sid hget hget' => ?_⟩
    · simp only [subscribed, GoMap.get_set] at hget ⊢
      split_ifs at hget
      · simp [Option.some.inj hget]
      · exact List.mem_append_left _ (h.listed entity sid hget)
    · simp only [subscribed, GoMap.get_set] at hget hget'
      split_ifs at hget hget' with h1 h2 h2
      · rw [h1, h2]
      · exact absurd (Option.some.inj hget).symm (hold hget')
      · exact absurd (Option.some.inj hget').symm (hold hget)
      · exact h.injective entity entity' sid hget hget'

theorem subscriptions_subscribeInputs (inputs : List InputStream)
    (answers : Nat → Option String) : (subscribeInputs taskCtx inputs answers).subscriptions =
      taskCtx.subscriptions ++ subscribedIDs inputs answers := by
  unfold subscribeInputs subscribedIDs
  generalize inputs.zipIdx = indexed
  induction indexed generalizing taskCtx with
  | nil => simp
  | cons input indexed ih =>
    rw [List.foldl_cons, ih, subscriptions_subscribed, List.append_assoc]
    cases hanswer : answers input.2 with
    | none => simp [hanswer]
    | some subID => simp [hanswer]

theorem consistent_subscribeInputs (h : Consistent taskCtx) {inputs : List InputStream}
    {answers : Nat → Option String}
    (hnew : (taskCtx.subscriptions ++ subscribedIDs inputs answers).Nodup) :
    Consistent (subscribeInputs taskCtx inputs answers) := by
  unfold subscribeInputs
  unfold subscribedIDs at hnew
  generalize inputs.zipIdx = indexed at hnew ⊢
  induction indexed generalizing taskCtx with
  | nil => exact h
  | cons input indexed ih =>
    have hsplit : taskCtx.subscriptions ++ (input :: indexed).filterMap (fun input =>
        answers input.2) = (taskCtx.subscriptions ++ (answers input.2).toList) ++
          indexed.filterMap (fun input => answers input.2) := by
      cases hanswer : answers input.2 with
      | none => simp [hanswer]
      | some subID => simp [hanswer]
    rw [hsplit] at hnew
    rw [List.foldl_cons]
    refine ih (consistent_subscribed h hnew.of_append_left) ?_
    rw [subscriptions_subscribed]
    exact hnew

-- what onRemoveInput leaves of a context
def withoutInput (taskCtx : TaskContext) (entity : String) : TaskContext :=
  { taskCtx with
    subscriptions := taskCtx.subscriptions.erase
      ((taskCtx.entityID2SubID.get entity).getD "")
    entityID2SubID := taskCtx.entityID2SubID.delete entity }

theorem consistent_withoutInput (h : Consistent taskCtx) (hempty : "" ∉ taskCtx.subscriptions)
    (entity : String) : Consistent (withoutInput taskCtx entity) := by
  refine ⟨h.single.erase _, fun entity' sid hget => ?_, fun entity' entity'' sid hget hget' => ?_⟩
  · obtain ⟨hne, hget⟩ := GoMap.get_of_get_delete hget
    have hmem := h.listed entity' sid hget
    refine (List.mem_erase_of_ne ?_).mpr hmem
    rintro rfl
    cases hold : taskCtx.entityID2SubID.get entity with
    | none =>
      rw [hold] at hmem
      exact hempty hmem
    | some subID =>
      rw [hold] at hget
      exact hne (h.injective entity' entity subID hget hold)
  · exact h.injective entity' entity'' sid (GoMap.get_of_get_delete hget).2
      (GoMap.get_of_get_delete hget').2

-- the subscriptions that a step creates, each under its task
def creates (e : Executor) : Operation → List (String × String)
  | .onAddInput flow answer =>
      if (e.taskInstances.get flow.taskInstanceID).isSome then
        answer.toList.map (Prod.mk flow.taskInstanceID)
      else []
  | .run i answers =>
      match e.goroutines[i]? with
      | some (.register task _ _) =>
          (subscribedIDs (pubSub task.inputs) answers.subIDs).map (Prod.mk task.id)
      | some (.delayedInputs taskInstanceID) =>
          if (e.taskInstances.get taskInstanceID).isSome then
            (subscribedIDs ((e.waiting taskInstanceID).map FlowInfo.inputStream)
              answers.subIDs).map (Prod.mk taskInstanceID)
          else []
      | _ => []
  | _ => []

-- the executor beside the record of the subscriptions created
def subscribing (s : Executor × List (String × String)) (op : Operation) :
    Option (Executor × List (String × String)) :=
  (operate true s.1 op).map (fun e => (e, s.2 ++ creates s.1 op))

def Executor.launching (e : Executor) (t : String) : Nat :=
  e.goroutines.countP (Goroutine.launches t)

-- all that a step can do to the contexts and to the subscriptions
inductive ContextStep (e e' : Executor) : List (String × String) → Prop where
  | kept (hcontexts : e'.taskInstances = e.taskInstances)
      (hcalls : unsubscribed e'.calls = unsubscribed e.calls) : ContextStep e e' []
  | added (k : String) (taskCtx : TaskContext) (inputs : List InputStream)
      (answers : Nat → Option String) (hget : e.taskInstances.get k = some taskCtx)
      (hcontexts : e'.taskInstances =
        e.taskInstances.set k (subscribeInputs taskCtx inputs answers))
      (hcalls : unsubscribed e'.calls = unsubscribed e.calls) :
      ContextStep e e' ((subscribedIDs inputs answers).map (Prod.mk k))
  | registered (task : ScheduledTaskInstance) (containerID : Nat) (refURL : String)
      (inputs : List InputStream) (answers : Nat → Option String)
      (hlaunching : e'.launching task.id + 1 = e.launching task.id)
      (hcontexts : e'.taskInstances = e.taskInstances.set task.id
        (subscribeInputs (taskContext task containerID refURL) inputs answers))
      (hcalls : unsubscribed e'.calls = unsubscribed e.calls) :
      ContextStep e e' ((subscribedIDs inputs answers).map (Prod.mk task.id))
  | removed (k : String) (taskCtx : TaskContext) (entity : String)
      (hget : e.taskInstances.get k = some taskCtx)
      (hcontexts : e'.taskInstances = e.taskInstances.set k (withoutInput taskCtx entity))
      (hcalls : unsubscribed e'.calls =
        unsubscribed e.calls ++ [(taskCtx.entityID2SubID.get entity).getD ""]) :
      ContextStep e e' []
  | cleanedUp (k : String) (taskCtx : TaskContext) (hget : e.taskInstances.get k = some taskCtx)
      (hcontexts : e'.taskInstances = e.taskInstances.delete k)
      (hcalls : unsubscribed e'.calls = unsubscribed e.calls ++ taskCtx.subscriptions) :
      ContextStep e e' []

theorem contextStep_onAddInput (flow : FlowInfo) (answer : Option String) :
    ContextStep e (onAddInput true e flow answer) (creates e (.onAddInput flow answer)) := by
  unfold onAddInput
  simp only [Bool.true_eq_false, if_false]
  split
  case h_1 taskCtx hget =>
    have hids : creates e (.onAddInput flow answer) =
        (subscribedIDs [flow.inputStream] (fun _ => answer)).map
          (Prod.mk flow.taskInstanceID) := by
      cases answer with
      | none => simp [creates, subscribedIDs]
      | some subID => simp [creates, hget, subscribedIDs]
    rw [hids]
    refine .added flow.taskInstanceID taskCtx _ _ hget rfl ?_
    rw [unsubscribed_append, unsubscribed_subscribeCalls, List.append_nil]
  case h_2 hget =>
    have hids : creates e (.onAddInput flow answer) = [] := by simp [creates, hget]
    rw [hids]
    exact .kept rfl rfl

theorem contextStep_onRemoveInput (flow : FlowInfo) :
    ContextStep e (onRemoveInput true e flow) (creates e (.onRemoveInput flow)) := by
  unfold onRemoveInput
  simp only [Bool.true_eq_false, if_false]
  split
  case h_1 hget => exact .kept rfl rfl
  case h_2 taskCtx hget =>
    refine .removed flow.taskInstanceID taskCtx flow.inputStream.id hget rfl ?_
    rw [unsubscribed_append]
    rfl

theorem contextStep_delayedInputs {i : Nat} {answers : Answers} {taskInstanceID : String}
    (hg : e.goroutines[i]? = some (.delayedInputs taskInstanceID)) :
    ContextStep e (runGoroutine e i answers (.delayedInputs taskInstanceID))
      (creates e (.run i answers)) := by
  have hcreates : creates e (.run i answers) =
      if (e.taskInstances.get taskInstanceID).isSome then
        (subscribedIDs ((e.waiting taskInstanceID).map FlowInfo.inputStream)
          answers.subIDs).map (Prod.mk taskInstanceID)
      else [] := by
    simp [creates, hg]
  rw [hcreates]
  simp only [runGoroutine, handleDelayedAddInputCommands]
  split
  case h_1 hqueue =>
    have hids : e.waiting taskInstanceID = [] := by simp [Executor.waiting, GoMap.slice, hqueue]
    rw [hids]
    simp only [List.map_nil, subscribedIDs, List.zipIdx_nil, List.filterMap_nil, ite_self]
    exact .kept rfl rfl
  case h_2 flowList hqueue =>
    have hids : e.waiting taskInstanceID = flowList := by
      simp [Executor.waiting, GoMap.slice, hqueue]
    rw [hids]
    split
    case h_1 =>
      simp only [List.map_nil, subscribedIDs, List.zipIdx_nil, List.filterMap_nil, ite_self]
      exact .kept rfl rfl
    case h_2 hnone =>
      rw [hnone, Option.isSome_none, if_neg Bool.false_ne_true]
      exact .kept rfl rfl
    case h_3 taskCtx flow flows hget =>
      rw [hget, Option.isSome_some, if_pos rfl]
      refine .added taskInstanceID taskCtx _ _ hget rfl ?_
      rw [unsubscribed_append, unsubscribed_subscribeCalls, List.append_nil]

theorem contextStep_runGoroutine {i : Nat} {answers : Answers} {g : Goroutine}
    (hg : e.goroutines[i]? = some g) :
    ContextStep e (runGoroutine e i answers g) (creates e (.run i answers)) := by
  cases g with
  | delayedInputs taskInstanceID => exact contextStep_delayedInputs hg
  | register task containerID refURL =>
    have hids : creates e (.run i answers) =
        (subscribedIDs (pubSub task.inputs) answers.subIDs).map (Prod.mk task.id) := by
      simp [creates, hg]
    rw [hids]
    refine .registered task containerID refURL _ _ ?_ rfl ?_
    · have hcount := Pool.countP_set (p := Goroutine.launches task.id) hg (.delayedInputs task.id)
      simpa [Executor.launching, runGoroutine, Goroutine.launches] using hcount
    · simp only [runGoroutine]
      rw [unsubscribed_append, unsubscribed_subscribeCalls, List.append_nil]
  | startTask task =>
    have hids : creates e (.run i answers) = [] := by simp [creates, hg]
    rw [hids]
    simp only [runGoroutine]
    split
    · exact .kept rfl rfl
    · exact .kept rfl rfl
  | lookUp taskID paused =>
    have hids : creates e (.run i answers) = [] := by simp [creates, hg]
    rw [hids]
    simp only [runGoroutine]
    split
    · exact .kept rfl rfl
    · exact .kept rfl rfl
  | stopTask termination =>
    have hids : creates e (.run i answers) = [] := by simp [creates, hg]
    rw [hids]
    exact .kept rfl rfl
  | cleanUp termination =>
    have hids : creates e (.run i answers) = [] := by simp [creates, hg]
    rw [hids]
    simp only [runGoroutine]
    split
    case h_1 => exact .kept rfl rfl
    case h_2 taskCtx hget =>
      refine .cleanedUp termination.taskID taskCtx hget rfl ?_
      rw [unsubscribed_append, unsubscribed_cleanUpCalls]

theorem contextStep_operate {op : Operation} (h : operate true e op = some e') :
    ContextStep e e' (creates e op) := by
  unfold operate at h
  split_ifs at h
  cases op with
  | launchTask task =>
    obtain rfl := Option.some.inj h
    exact .kept rfl rfl
  | terminateTask taskID paused =>
    obtain rfl := Option.some.inj h
    exact .kept rfl rfl
  | onAddInput flow answer =>
    obtain rfl := Option.some.inj h
    exact contextStep_onAddInput flow answer
  | onRemoveInput flow =>
    obtain rfl := Option.some.inj h
    exact contextStep_onRemoveInput flow
  | run i answers =>
    obtain ⟨g, hg, rfl⟩ := Option.map_eq_some_iff.mp h
    exact contextStep_runGoroutine hg

variable {created created' : List (String × String)}

-- a context holds subscriptions of its own task, and no id is cancelled before it is given
structure Owned (e : Executor) (created : List (String × String)) : Prop where
  consistent : ∀ k taskCtx, e.taskInstances.get k = some taskCtx → Consistent taskCtx
  owned : ∀ k taskCtx, e.taskInstances.get k = some taskCtx →
    ∀ sid ∈ taskCtx.subscriptions, (k, sid) ∈ created
  cancelled : ∀ sid ∈ unsubscribed e.calls, sid = "" ∨ sid ∈ created.map Prod.snd

structure Distinct (created : List (String × String)) : Prop where
  nodup : (created.map Prod.snd).Nodup
  nonempty : "" ∉ created.map Prod.snd

theorem Distinct.of_append (h : Distinct (created ++ created')) : Distinct created := by
  have hnodup := h.nodup
  have hnonempty := h.nonempty
  rw [List.map_append] at hnodup hnonempty
  exact ⟨hnodup.of_append_left, fun hmem => hnonempty (List.mem_append_left _ hmem)⟩

theorem Distinct.same_task (h : Distinct created) {k k' sid : String}
    (hk : (k, sid) ∈ created) (hk' : (k', sid) ∈ created) : k = k' :=
  congrArg Prod.fst (List.inj_on_of_nodup_map h.nodup hk hk' rfl)

theorem map_snd_mk (k : String) (ids : List String) : (ids.map (Prod.mk k)).map Prod.snd = ids := by
  simp [Function.comp_def]

theorem Distinct.fresh {k : String} {ids : List String}
    (h : Distinct (created ++ ids.map (Prod.mk k))) {sid : String} (hsid : sid ∈ ids) :
    sid ∉ created.map Prod.snd := by
  have hnodup := h.nodup
  rw [List.map_append, map_snd_mk] at hnodup
  exact fun hmem => List.disjoint_of_nodup_append hnodup hmem hsid

theorem Distinct.ids_nodup {k : String} {ids : List String}
    (h : Distinct (created ++ ids.map (Prod.mk k))) : ids.Nodup := by
  have hnodup := h.nodup
  rw [List.map_append, map_snd_mk] at hnodup
  exact hnodup.of_append_right

theorem nodup_subscriptions_append (h : Owned e created) {k : String} {ids : List String}
    (hids : Distinct (created ++ ids.map (Prod.mk k)))
    (hget : e.taskInstances.get k = some taskCtx) : (taskCtx.subscriptions ++ ids).Nodup := by
  refine List.nodup_append.mpr ⟨(h.consistent k taskCtx hget).single, hids.ids_nodup, ?_⟩
  rintro sid hold _ hnew rfl
  exact hids.fresh hnew (List.mem_map_of_mem (h.owned k taskCtx hget sid hold))

theorem owned_set (h : Owned e created) {k : String} {taskCtx' : TaskContext}
    (hcontexts : e'.taskInstances = e.taskInstances.set k taskCtx')
    (hconsistent : Consistent taskCtx')
    (howned : ∀ sid ∈ taskCtx'.subscriptions, (k, sid) ∈ created ++ created')
    (hcancelled : ∀ sid ∈ unsubscribed e'.calls, sid = "" ∨
      sid ∈ (created ++ created').map Prod.snd) : Owned e' (created ++ created') := by
  refine ⟨fun k' taskCtx'' hget => ?_, fun k' taskCtx'' hget sid hsid => ?_, hcancelled⟩
  · rw [hcontexts, GoMap.get_set] at hget
    split_ifs at hget
    · obtain rfl := Option.some.inj hget
      exact hconsistent
    · exact h.consistent k' taskCtx'' hget
  · rw [hcontexts, GoMap.get_set] at hget
    split_ifs at hget with hk
    · obtain rfl := Option.some.inj hget
      exact hk ▸ howned sid hsid
    · exact List.mem_append_left _ (h.owned k' taskCtx'' hget sid hsid)

theorem Owned.cancelled_same (h : Owned e created)
    (hcalls : unsubscribed e'.calls = unsubscribed e.calls) :
    ∀ sid ∈ unsubscribed e'.calls, sid = "" ∨ sid ∈ (created ++ created').map Prod.snd := by
  intro sid hsid
  rw [hcalls] at hsid
  rw [List.map_append]
  exact (h.cancelled sid hsid).imp_right (List.mem_append_left _)

theorem Owned.not_empty (h : Owned e created) (hids : Distinct created) {k : String}
    (hget : e.taskInstances.get k = some taskCtx) : "" ∉ taskCtx.subscriptions :=
  fun hmem => hids.nonempty (List.mem_map_of_mem (h.owned k taskCtx hget "" hmem))

-- the id that a removal cancels
theorem Owned.removed_id (h : Owned e created) {k : String}
    (hget : e.taskInstances.get k = some taskCtx) (entity : String) :
    (taskCtx.entityID2SubID.get entity).getD "" = "" ∨
      (taskCtx.entityID2SubID.get entity).getD "" ∈ taskCtx.subscriptions := by
  cases hold : taskCtx.entityID2SubID.get entity with
  | none => exact Or.inl rfl
  | some subID => exact Or.inr ((h.consistent k taskCtx hget).listed entity subID hold)

theorem owned_step (h : Owned e created) (hs : ContextStep e e' created')
    (hids : Distinct (created ++ created')) : Owned e' (created ++ created') := by
  cases hs with
  | kept hcontexts hcalls =>
    rw [List.append_nil] at hids ⊢
    refine ⟨fun k taskCtx hget => ?_, fun k taskCtx hget => ?_, fun sid hsid => ?_⟩
    · exact h.consistent k taskCtx (hcontexts ▸ hget)
    · exact h.owned k taskCtx (hcontexts ▸ hget)
    · exact h.cancelled sid (hcalls ▸ hsid)
  | added k taskCtx inputs answers hget hcontexts hcalls =>
    refine owned_set h hcontexts ?_ (fun sid hsid => ?_) (h.cancelled_same hcalls)
    · exact consistent_subscribeInputs (h.consistent k taskCtx hget)
        (nodup_subscriptions_append h hids hget)
    · rw [subscriptions_subscribeInputs] at hsid
      rcases List.mem_append.mp hsid with hsid | hsid
      · exact List.mem_append_left _ (h.owned k taskCtx hget sid hsid)
      · exact List.mem_append_right _ (List.mem_map_of_mem hsid)
  | registered task containerID refURL inputs answers _ hcontexts hcalls =>
    refine owned_set h hcontexts ?_ (fun sid hsid => ?_) (h.cancelled_same hcalls)
    · exact consistent_subscribeInputs (consistent_taskContext task containerID refURL)
        hids.ids_nodup
    · rw [subscriptions_subscribeInputs] at hsid
      exact List.mem_append_right _ (List.mem_map_of_mem hsid)
  | removed k taskCtx entity hget hcontexts hcalls =>
    have hempty := h.not_empty hids.of_append hget
    refine owned_set h hcontexts (consistent_withoutInput (h.consistent k taskCtx hget) hempty
      entity) (fun sid hsid => ?_) (fun sid hsid => ?_)
    · exact List.mem_append_left _ (h.owned k taskCtx hget sid (List.mem_of_mem_erase hsid))
    · rw [List.append_nil]
      rw [hcalls] at hsid
      rcases List.mem_append.mp hsid with hsid | hsid
      · exact h.cancelled sid hsid
      · obtain rfl := List.mem_singleton.mp hsid
        exact (h.removed_id hget entity).imp_right
          (fun hmem => List.mem_map_of_mem (h.owned k taskCtx hget _ hmem))
  | cleanedUp k taskCtx hget hcontexts hcalls =>
    rw [List.append_nil]
    refine ⟨fun k' taskCtx' hget' => ?_, fun k' taskCtx' hget' => ?_, fun sid hsid => ?_⟩
    · rw [hcontexts] at hget'
      exact h.consistent k' taskCtx' (GoMap.get_of_get_delete hget').2
    · rw [hcontexts] at hget'
      exact h.owned k' taskCtx' (GoMap.get_of_get_delete hget').2
    · rw [hcalls] at hsid
      rcases List.mem_append.mp hsid with hsid | hsid
      · exact h.cancelled sid hsid
      · exact Or.inr (List.mem_map_of_mem (h.owned k taskCtx hget sid hsid))

def launchesOf (t : String) (ops : List Operation) : Nat :=
  ops.countP (fun
    | .launchTask task => task.id == t
    | _ => false)

theorem launching_set {i : Nat} {g g' : Goroutine} (hg : e.goroutines[i]? = some g)
    (hle : g'.launches t = true → g.launches t = true) :
    (e.goroutines.set i g').countP (Goroutine.launches t) ≤ e.launching t := by
  have hcount := Pool.countP_set (p := Goroutine.launches t) hg g'
  unfold Executor.launching
  split_ifs at hcount with h1 h2 h2
  · omega
  · omega
  · exact absurd (hle h2) h1
  · omega

theorem launching_eraseIdx {i : Nat} {g : Goroutine} (hg : e.goroutines[i]? = some g) :
    (e.goroutines.eraseIdx i).countP (Goroutine.launches t) ≤ e.launching t := by
  have hcount := Pool.countP_eraseIdx (p := Goroutine.launches t) hg
  unfold Executor.launching
  omega

theorem launching_runGoroutine {i : Nat} {answers : Answers} {g : Goroutine}
    (hg : e.goroutines[i]? = some g) :
    (runGoroutine e i answers g).launching t ≤ e.launching t := by
  cases g with
  | startTask task =>
    simp only [runGoroutine]
    split
    · exact launching_eraseIdx hg
    · exact launching_set hg id
  | register task containerID refURL => exact launching_set hg (fun h => by cases h)
  | delayedInputs taskInstanceID =>
    simp only [runGoroutine, handleDelayedAddInputCommands]
    split
    · exact launching_eraseIdx hg
    · split
      · exact launching_eraseIdx hg
      · exact launching_eraseIdx hg
      · exact launching_eraseIdx hg
  | lookUp taskID paused =>
    simp only [runGoroutine]
    split
    · exact launching_eraseIdx hg
    · exact launching_set hg (fun h => by cases h)
  | stopTask termination => exact launching_set hg (fun h => by cases h)
  | cleanUp termination =>
    simp only [runGoroutine]
    split
    · exact le_refl _
    · exact launching_eraseIdx hg

theorem goroutines_onAddInput (flow : FlowInfo) (answer : Option String) :
    (onAddInput true e flow answer).goroutines = e.goroutines := by
  unfold onAddInput
  simp only [Bool.true_eq_false, if_false]
  split
  · rfl
  · rfl

theorem goroutines_onRemoveInput (flow : FlowInfo) :
    (onRemoveInput true e flow).goroutines = e.goroutines := by
  unfold onRemoveInput
  simp only [Bool.true_eq_false, if_false]
  split
  · rfl
  · rfl

theorem launching_operate {op : Operation} (h : operate true e op = some e') :
    e'.launching t ≤ e.launching t + launchesOf t [op] := by
  unfold operate at h
  split_ifs at h
  cases op with
  | launchTask task =>
    obtain rfl := Option.some.inj h
    simp [Executor.launching, launchesOf, Goroutine.launches, List.countP_append,
      List.countP_singleton]
  | terminateTask taskID paused =>
    obtain rfl := Option.some.inj h
    simp [Executor.launching, launchesOf, Goroutine.launches, List.countP_append]
  | onAddInput flow answer =>
    obtain rfl := Option.some.inj h
    rw [Executor.launching, goroutines_onAddInput]
    exact Nat.le_add_right _ _
  | onRemoveInput flow =>
    obtain rfl := Option.some.inj h
    rw [Executor.launching, goroutines_onRemoveInput]
    exact Nat.le_add_right _ _
  | run i answers =>
    obtain ⟨g, hg, rfl⟩ := Option.map_eq_some_iff.mp h
    exact (launching_runGoroutine hg).trans (Nat.le_add_right _ _)

def Executor.held (e : Executor) (t : String) : List String :=
  ((e.taskInstances.get t).map TaskContext.subscriptions).getD []

-- each subscription of the task is held or has been cancelled, and not both
structure Balanced (t : String) (ops : List Operation)
    (s : Executor × List (String × String)) : Prop where
  owned : Owned s.1 s.2
  limit : s.1.launching t ≤ launchesOf t ops
  unlaunched : s.1.launching t = launchesOf t ops →
    s.1.taskInstances.get t = none ∧ ∀ sid, (t, sid) ∉ s.2
  once : ∀ sid, (t, sid) ∈ s.2 →
    (unsubscribed s.1.calls).count sid + (s.1.held t).count sid = 1

theorem held_of_get (hget : e.taskInstances.get t = some taskCtx) :
    e.held t = taskCtx.subscriptions := by
  rw [Executor.held, hget]
  rfl

theorem held_set {k : String} {taskCtx' : TaskContext}
    (hcontexts : e'.taskInstances = e.taskInstances.set k taskCtx') :
    e'.held t = if t = k then taskCtx'.subscriptions else e.held t := by
  rw [Executor.held, hcontexts, GoMap.get_set]
  split_ifs
  · rfl
  · rfl

-- an id just given was neither cancelled nor held before
theorem once_created (h : Owned e created) {k : String} {ids held : List String}
    (hids : Distinct (created ++ ids.map (Prod.mk k)))
    (hheld : ∀ sid ∈ held, (k, sid) ∈ created) {sid : String} (hsid : sid ∈ ids) :
    (unsubscribed e.calls).count sid + (held ++ ids).count sid = 1 := by
  have hfresh := hids.fresh hsid
  have hcancelled : sid ∉ unsubscribed e.calls := by
    intro hmem
    rcases h.cancelled sid hmem with rfl | hmem
    · refine hids.nonempty ?_
      rw [List.map_append, map_snd_mk]
      exact List.mem_append_right _ hsid
    · exact hfresh hmem
  have hold : sid ∉ held := fun hmem => hfresh (List.mem_map_of_mem (hheld sid hmem))
  rw [List.count_append, List.count_eq_zero.mpr hcancelled, List.count_eq_zero.mpr hold,
    List.count_eq_one_of_mem hids.ids_nodup hsid]

theorem Distinct.ne_of_task_ne (hids : Distinct created) {k sid subID : String} (hk : k ≠ t)
    (hsub : (k, subID) ∈ created) (hsid : (t, sid) ∈ created) : sid ≠ subID := by
  rintro rfl
  exact hk (hids.same_task hsub hsid)

theorem count_held_added {k sid : String} {inputs : List InputStream}
    {answers : Nat → Option String} (hget : e.taskInstances.get k = some taskCtx)
    (hcontexts : e'.taskInstances =
      e.taskInstances.set k (subscribeInputs taskCtx inputs answers))
    (hne : sid ∉ subscribedIDs inputs answers) :
    (e'.held t).count sid = (e.held t).count sid := by
  rw [held_set hcontexts, subscriptions_subscribeInputs]
  split_ifs with hk
  · rw [hk, held_of_get hget, List.count_append, List.count_eq_zero.mpr hne, Nat.add_zero]
  · rfl

-- an input that is removed loses its id from the list as the id is cancelled
theorem once_removed (h : Owned e created) (hids : Distinct created) {k sid entity : String}
    (hget : e.taskInstances.get k = some taskCtx)
    (hcontexts : e'.taskInstances = e.taskInstances.set k (withoutInput taskCtx entity))
    (hcalls : unsubscribed e'.calls =
      unsubscribed e.calls ++ [(taskCtx.entityID2SubID.get entity).getD ""])
    (hsid : (t, sid) ∈ created)
    (hold : (unsubscribed e.calls).count sid + (e.held t).count sid = 1) :
    (unsubscribed e'.calls).count sid + (e'.held t).count sid = 1 := by
  rw [hcalls, held_set hcontexts, List.count_append, List.count_singleton]
  have hne : sid ≠ "" := by
    rintro rfl
    exact hids.nonempty (List.mem_map_of_mem hsid)
  have hcancelled := h.removed_id hget entity
  by_cases hk : t = k
  · subst hk
    rw [held_of_get hget] at hold
    rw [if_pos rfl, withoutInput, List.count_erase]
    by_cases heq : (taskCtx.entityID2SubID.get entity).getD "" = sid
    · have hmem := hcancelled.resolve_left (fun hnil => hne (heq.symm.trans hnil))
      rw [heq] at hmem
      have hpos := List.count_pos_iff.mpr hmem
      rw [heq]
      simp only [beq_self_eq_true, if_true]
      omega
    · simp only [beq_iff_eq, heq, if_false]
      omega
  · have hdiff : (taskCtx.entityID2SubID.get entity).getD "" ≠ sid := by
      intro heq
      have hmem := hcancelled.resolve_left (fun hnil => hne (heq.symm.trans hnil))
      exact hids.ne_of_task_ne (Ne.symm hk) (h.owned k taskCtx hget _ hmem) hsid heq.symm
    rw [if_neg hk]
    simp only [beq_iff_eq, hdiff, if_false]
    exact hold

theorem once_cleanedUp (h : Owned e created) (hids : Distinct created) {k sid : String}
    (hget : e.taskInstances.get k = some taskCtx)
    (hcontexts : e'.taskInstances = e.taskInstances.delete k)
    (hcalls : unsubscribed e'.calls = unsubscribed e.calls ++ taskCtx.subscriptions)
    (hsid : (t, sid) ∈ created)
    (hold : (unsubscribed e.calls).count sid + (e.held t).count sid = 1) :
    (unsubscribed e'.calls).count sid + (e'.held t).count sid = 1 := by
  rw [hcalls, Executor.held, hcontexts, GoMap.get_delete, List.count_append]
  split_ifs with hk
  · rw [hk, held_of_get hget] at hold
    exact hold
  · have hnone : sid ∉ taskCtx.subscriptions :=
      fun hmem => hids.ne_of_task_ne (Ne.symm hk) (h.owned k taskCtx hget sid hmem) hsid rfl
    rw [List.count_eq_zero.mpr hnone]
    exact hold

theorem once_step (h : Owned e created) (hs : ContextStep e e' created')
    (hids : Distinct (created ++ created'))
    (hfirst : e'.launching t + 1 = e.launching t → ∀ sid, (t, sid) ∉ created)
    (honce : ∀ sid, (t, sid) ∈ created →
      (unsubscribed e.calls).count sid + (e.held t).count sid = 1) :
    ∀ sid, (t, sid) ∈ created ++ created' →
      (unsubscribed e'.calls).count sid + (e'.held t).count sid = 1 := by
  intro sid hsid
  cases hs with
  | kept hcontexts hcalls =>
    rw [List.append_nil] at hsid
    rw [hcalls, Executor.held, hcontexts]
    exact honce sid hsid
  | added k taskCtx inputs answers hget hcontexts hcalls =>
    rcases List.mem_append.mp hsid with hsid | hsid
    · have hne : sid ∉ subscribedIDs inputs answers :=
        fun hmem => hids.fresh hmem (List.mem_map_of_mem hsid)
      rw [hcalls, count_held_added hget hcontexts hne]
      exact honce sid hsid
    · obtain ⟨sid', hnew, heq⟩ := List.mem_map.mp hsid
      obtain ⟨rfl, rfl⟩ := Prod.mk.inj heq
      rw [hcalls, held_set hcontexts, subscriptions_subscribeInputs, if_pos rfl]
      exact once_created h hids (h.owned k taskCtx hget) hnew
  | registered task containerID refURL inputs answers hlaunching hcontexts hcalls =>
    rw [hcalls, held_set hcontexts, subscriptions_subscribeInputs]
    rcases List.mem_append.mp hsid with hsid | hsid
    · split_ifs with hk
      · subst hk
        exact absurd hsid (hfirst hlaunching sid)
      · exact honce sid hsid
    · obtain ⟨sid', hnew, heq⟩ := List.mem_map.mp hsid
      obtain ⟨hid, rfl⟩ := Prod.mk.inj heq
      rw [if_pos hid.symm]
      refine once_created h hids (fun sid hmem => ?_) hnew
      cases hmem
  | removed k taskCtx entity hget hcontexts hcalls =>
    rw [List.append_nil] at hsid
    exact once_removed h hids.of_append hget hcontexts hcalls hsid (honce sid hsid)
  | cleanedUp k taskCtx hget hcontexts hcalls =>
    rw [List.append_nil] at hsid
    exact once_cleanedUp h hids.of_append hget hcontexts hcalls hsid (honce sid hsid)

theorem unlaunched_step (hs : ContextStep e e' created')
    (hfirst : e.launching t ≤ e'.launching t)
    (h : e.taskInstances.get t = none ∧ ∀ sid, (t, sid) ∉ created) :
    e'.taskInstances.get t = none ∧ ∀ sid, (t, sid) ∉ created ++ created' := by
  obtain ⟨hnone, hcreated⟩ := h
  have hother {k : String} {ids : List String} (hk : k ≠ t) :
      ∀ sid, (t, sid) ∉ created ++ ids.map (Prod.mk k) := by
    intro sid hmem
    rcases List.mem_append.mp hmem with hmem | hmem
    · exact hcreated sid hmem
    · obtain ⟨sid', -, heq⟩ := List.mem_map.mp hmem
      exact hk (Prod.mk.inj heq).1
  have hpresent {k : String} {taskCtx : TaskContext}
      (hget : e.taskInstances.get k = some taskCtx) : t ≠ k := by
    rintro rfl
    rw [hnone] at hget
    cases hget
  cases hs with
  | kept hcontexts hcalls =>
    rw [hcontexts, List.append_nil]
    exact ⟨hnone, hcreated⟩
  | added k taskCtx inputs answers hget hcontexts hcalls =>
    rw [hcontexts, GoMap.get_set_ne _ _ (hpresent hget)]
    exact ⟨hnone, hother (Ne.symm (hpresent hget))⟩
  | registered task containerID refURL inputs answers hlaunching hcontexts hcalls =>
    have hne : task.id ≠ t := by
      rintro rfl
      omega
    rw [hcontexts, GoMap.get_set_ne _ _ (Ne.symm hne)]
    exact ⟨hnone, hother hne⟩
  | removed k taskCtx entity hget hcontexts hcalls =>
    rw [hcontexts, GoMap.get_set_ne _ _ (hpresent hget), List.append_nil]
    exact ⟨hnone, hcreated⟩
  | cleanedUp k taskCtx hget hcontexts hcalls =>
    rw [hcontexts, GoMap.get_delete_ne _ (hpresent hget), List.append_nil]
    exact ⟨hnone, hcreated⟩

variable {ops : List Operation} {op : Operation}

theorem launchesOf_concat (t : String) (ops : List Operation) (op : Operation) :
    launchesOf t (ops ++ [op]) = launchesOf t ops + launchesOf t [op] :=
  List.countP_append ..

theorem balanced_init : Balanced t [] (.init, []) where
  owned := ⟨by simp [Executor.init], by simp [Executor.init],
    by simp [Executor.init, unsubscribed]⟩
  limit := le_refl _
  unlaunched := fun _ => ⟨rfl, by simp⟩
  once := by simp

theorem balanced_step (h : Balanced t ops (e, created)) (hs : operate true e op = some e')
    (hlaunch : launchesOf t (ops ++ [op]) ≤ 1) (hids : Distinct (created ++ creates e op)) :
    Balanced t (ops ++ [op]) (e', created ++ creates e op) := by
  have hstep := contextStep_operate hs
  have hlaunching : e'.launching t ≤ e.launching t + launchesOf t [op] := launching_operate hs
  have hlimit : e.launching t ≤ launchesOf t ops := h.limit
  rw [launchesOf_concat] at hlaunch
  refine ⟨owned_step h.owned hstep hids, ?_, fun heq => ?_, ?_⟩
  · rw [launchesOf_concat]
    exact hlaunching.trans (Nat.add_le_add_right hlimit _)
  · rw [launchesOf_concat] at heq
    have heq : e'.launching t = launchesOf t ops + launchesOf t [op] := heq
    have hsame : e.launching t = launchesOf t ops := by omega
    exact unlaunched_step hstep (by omega) (h.unlaunched hsame)
  · refine once_step h.owned hstep hids (fun hregister => ?_) h.once
    -- the only launch of the task is the one that registers it now
    have hregister : e'.launching t + 1 = e.launching t := hregister
    have hsame : e.launching t = launchesOf t ops := by omega
    exact (h.unlaunched hsame).2

theorem balanced_exec {s : Executor × List (String × String)}
    (hrun : exec subscribing (.init, []) ops = some s) (hlaunch : launchesOf t ops ≤ 1)
    (hids : Distinct s.2) : Balanced t ops s := by
  refine exec_induction (motive := fun ops s => launchesOf t ops ≤ 1 → Distinct s.2 →
    Balanced t ops s) hrun (fun _ _ => balanced_init) ?_ hlaunch hids
  intro js op r s' _ _ ih hs hlaunch hids
  obtain ⟨e, created⟩ := r
  obtain ⟨e', he, rfl⟩ := Option.map_eq_some_iff.mp hs
  refine balanced_step (ih ?_ hids.of_append) he hlaunch hids
  rw [launchesOf_concat] at hlaunch
  omega

-- at the end of a TerminateTask
theorem unsubscribed_once {i : Nat} {answers : Answers} {termination : Terminating}
    (hrun : exec subscribing (.init, []) ops = some (e, created))
    (hg : e.goroutines[i]? = some (.cleanUp termination))
    (hend : subscribing (e, created) (.run i answers) = some (e', created'))
    (hlaunch : launchesOf termination.taskID ops ≤ 1) (hids : Distinct created) :
    ∀ sid, (termination.taskID, sid) ∈ created' → (unsubscribed e'.calls).count sid = 1 := by
  intro sid hsid
  obtain ⟨e₁, he, heq⟩ := Option.map_eq_some_iff.mp hend
  obtain ⟨rfl, rfl⟩ := Prod.mk.inj heq
  have hnone : creates e (.run i answers) = [] := by simp [creates, hg]
  have hids' : Distinct (created ++ creates e (.run i answers)) := by
    rw [hnone, List.append_nil]
    exact hids
  have hlaunch' : launchesOf termination.taskID (ops ++ [.run i answers]) ≤ 1 := by
    rw [launchesOf_concat]
    exact hlaunch
  have hbalanced := balanced_step (balanced_exec hrun hlaunch hids) he hlaunch' hids'
  have honce := hbalanced.once sid hsid
  have hheld : e₁.held termination.taskID = [] := by
    obtain rfl := operate_run he hg
    simp only [runGoroutine]
    split
    case h_1 hget =>
      rw [Executor.held]
      exact congrArg (fun m => (Option.map TaskContext.subscriptions m).getD []) hget
    case h_2 taskCtx hget => simp [Executor.held, GoMap.get_delete]
  have honce : (unsubscribed e₁.calls).count sid +
      (e₁.held termination.taskID).count sid = 1 := honce
  rw [hheld, List.count_nil] at honce
  exact honce

def answering (sid : String) : Answers := ⟨some "http://task", fun _ => some sid⟩

def meteredTask : ScheduledTaskInstance :=
  { exampleTask "counter" false 0 with inputs := [(exampleFlow "Car.01").inputStream] }

-- an entity added again, one never added removed, and a command after the first section
def commandsAroundTermination : List Operation :=
  [.launchTask meteredTask, .run 0 (answering ""), .run 0 (answering "s1"),
    .run 0 (answering ""), .onAddInput (exampleFlow "Car.01") (some "s2"),
    .onRemoveInput (exampleFlow "Car.01"), .onRemoveInput (exampleFlow "Car.09"),
    .terminateTask "counter" false, .run 0 (answering ""), .run 0 (answering ""),
    .onAddInput (exampleFlow "Car.03") (some "s3")]

def counterIDs : List (String × String) :=
  [("counter", "s1"), ("counter", "s2"), ("counter", "s3")]

theorem commandsAroundTermination_unsubscribed :
    ∃ e e', exec subscribing (.init, []) commandsAroundTermination = some (e, counterIDs) ∧
      subscribing (e, counterIDs) (.run 0 (answering "")) = some (e', counterIDs) ∧
      ∀ sid, ("counter", sid) ∈ counterIDs → (unsubscribed e'.calls).count sid = 1 := by
  have hrun : ∃ e e', exec subscribing (.init, []) commandsAroundTermination =
        some (e, counterIDs) ∧
      e.goroutines[0]? = some (.cleanUp ⟨"counter", false, 0, "topology", "task", "intent"⟩) ∧
      subscribing (e, counterIDs) (.run 0 (answering "")) = some (e', counterIDs) :=
    ⟨_, _, rfl, rfl, rfl⟩
  obtain ⟨e, e', hbefore, hg, hend⟩ := hrun
  exact ⟨e, e', hbefore, hend,
    unsubscribed_once hbefore hg hend (by decide) ⟨by decide, by decide⟩⟩

end FogFlow.Worker
