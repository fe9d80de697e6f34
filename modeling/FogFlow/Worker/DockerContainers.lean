import FogFlow.Worker.Containers
import FogFlow.Worker.DockerWorker

namespace FogFlow.Worker.DockerWorker

open Ngsi Datamodel Execution DockerEngine

-- the container that a StartTask still answers for
def Phase.container : Phase → List Nat
  | .startContainer _ _ container _ => [container]
  | .removeContainer _ _ container _ => [container]
  | _ => []

def Phase.removing : Phase → List Nat
  | .removeContainer _ _ container _ => [container]
  | _ => []

def DockerGoroutine.busy : DockerGoroutine → List Nat
  | .starting _ phase => phase.container
  | .other _ => []

def DockerGoroutine.removing : DockerGoroutine → List Nat
  | .starting _ phase => phase.removing
  | .other _ => []

def holding (s : System) : List Nat :=
  s.goroutines.flatMap DockerGoroutine.busy ++ s.launches.map Launch.container

def Counted (s : System) (c : Nat) : Prop :=
  ∃ n taskID launch, (n, taskID) ∈ s.executor.containers ∧ s.launches[n]? = some launch ∧
    launch.container = c

-- who will still do something about a container, or has given it up
def Known (s : System) (c : Nat) : Prop :=
  Counted s c ∨ c ∈ s.goroutines.flatMap DockerGoroutine.removing ∨ c ∈ s.stopping ∨ c ∈ s.left

def Refers (engine : Engine) (launches : List Launch) (taskID : String) (containerID : Nat)
    (url : String) : Prop :=
  ∃ launch, launches[containerID]? = some launch ∧ launch.task.id = taskID ∧
    url = refURL engine.cfg launch.freePort

def Fits (engine : Engine) (daemon : Daemon) (launches : List Launch) : DockerGoroutine → Prop
  | .starting task (.startContainer _ prepared container freePort) =>
      optionsAt daemon container = some (engine.options task prepared freePort)
  | .other (.register task containerID url) => Refers engine launches task.id containerID url
  | _ => True

structure Sound (engine : Engine) (s : System) : Prop where
  started : s.launches.length = s.executor.started
  held : (holding s).Nodup
  created : ∀ c ∈ holding s, c < s.daemon.length
  fits : ∀ g ∈ s.goroutines, Fits engine s.daemon s.launches g
  launched : ∀ launch ∈ s.launches, optionsAt s.daemon launch.container =
    some (engine.options launch.task launch.prepared launch.freePort)
  counted : ∀ n taskID, (n, taskID) ∈ s.executor.containers → ∃ launch,
    s.launches[n]? = some launch ∧ launch.task.id = taskID ∧
      statusAt s.daemon launch.container = some .running
  running : ∀ c, statusAt s.daemon c = some .running → Known s c
  stopping : ∀ c ∈ s.stopping, ∃ n launch, s.launches[n]? = some launch ∧
    launch.container = c ∧ ∀ taskID, (n, taskID) ∉ s.executor.containers
  registered : ∀ taskID taskCtx, s.executor.taskInstances.get taskID = some taskCtx →
    Refers engine s.launches taskID taskCtx.containerID taskCtx.refURL

section Daemon

variable {daemon : Daemon} {c k : Nat} {status : Status}

@[simp] theorem length_setStatus : (setStatus daemon c status).length = daemon.length := by
  simp [setStatus]

@[simp] theorem optionsAt_setStatus :
    optionsAt (setStatus daemon c status) k = optionsAt daemon k := by
  unfold optionsAt setStatus
  rw [List.getElem?_modify]
  cases daemon[k]? with
  | none => rfl
  | some container => split_ifs <;> rfl

theorem statusAt_setStatus : statusAt (setStatus daemon c status) k =
    if c = k then (statusAt daemon k).map (fun _ => status) else statusAt daemon k := by
  unfold statusAt setStatus
  rw [List.getElem?_modify]
  cases daemon[k]? with
  | none => split_ifs <;> rfl
  | some container => split_ifs <;> rfl

theorem statusAt_setStatus_ne (h : k ≠ c) :
    statusAt (setStatus daemon c status) k = statusAt daemon k := by
  rw [statusAt_setStatus, if_neg (Ne.symm h)]

theorem statusAt_setStatus_self (h : c < daemon.length) :
    statusAt (setStatus daemon c status) c = some status := by
  rw [statusAt_setStatus, if_pos rfl, statusAt, List.getElem?_eq_getElem h]
  rfl

theorem lt_of_statusAt (h : statusAt daemon c = some status) : c < daemon.length := by
  obtain ⟨container, hget, -⟩ := Option.map_eq_some_iff.mp h
  exact (List.getElem?_eq_some_iff.mp hget).1

theorem optionsAt_append {options : ContainerOptions} (h : optionsAt daemon c = some options)
    (container : Container) : optionsAt (daemon ++ [container]) c = some options := by
  obtain ⟨found, hget, rfl⟩ := Option.map_eq_some_iff.mp h
  rw [optionsAt, List.getElem?_append_left (List.getElem?_eq_some_iff.mp hget).1, hget]
  rfl

theorem statusAt_append (h : c < daemon.length) (container : Container) :
    statusAt (daemon ++ [container]) c = statusAt daemon c := by
  rw [statusAt, List.getElem?_append_left h]
  rfl

end Daemon

section Executor

variable {e : Executor} {i : Nat} {answers : Answers} {g : Goroutine}

@[simp] theorem subscribeInputs_refURL (taskCtx : TaskContext) (inputs : List InputStream)
    (answers : Nat → Option String) :
    (subscribeInputs taskCtx inputs answers).refURL = taskCtx.refURL := by
  unfold subscribeInputs
  refine List.foldlRecOn (motive := fun ctx : TaskContext => ctx.refURL = taskCtx.refURL)
    _ _ rfl (fun ctx hctx input _ => ?_)
  rw [← hctx]
  unfold subscribed
  split <;> rfl

theorem started_runGoroutine (hstart : ∀ task, g ≠ .startTask task) :
    (runGoroutine e i answers g).started = e.started := by
  cases g with
  | startTask task => exact absurd rfl (hstart task)
  | register task containerID refURL => rfl
  | delayedInputs taskInstanceID =>
    simp only [runGoroutine, handleDelayedAddInputCommands]
    split
    · rfl
    · split <;> rfl
  | lookUp taskID paused =>
    simp only [runGoroutine]
    split <;> rfl
  | stopTask termination => rfl
  | cleanUp termination =>
    simp only [runGoroutine]
    split <;> rfl

theorem mem_containers_runGoroutine (hstart : ∀ task, g ≠ .startTask task) {n : Nat}
    {taskID : String} : (n, taskID) ∈ (runGoroutine e i answers g).containers ↔
      (n, taskID) ∈ e.containers ∧
        ∀ termination, g = .stopTask termination → n ≠ termination.containerID := by
  have hother (hsame : (runGoroutine e i answers g).containers = e.containers)
      (hstop : ∀ termination, g ≠ .stopTask termination) :
      (n, taskID) ∈ (runGoroutine e i answers g).containers ↔ (n, taskID) ∈ e.containers ∧
        ∀ termination, g = .stopTask termination → n ≠ termination.containerID := by
    rw [hsame]
    exact ⟨fun h => ⟨h, fun termination heq => absurd heq (hstop termination)⟩, And.left⟩
  cases g with
  | startTask task => exact absurd rfl (hstart task)
  | register task containerID refURL => exact hother rfl (by simp)
  | delayedInputs taskInstanceID =>
    refine hother ?_ (by simp)
    simp only [runGoroutine, handleDelayedAddInputCommands]
    split
    · rfl
    · split <;> rfl
  | lookUp taskID paused =>
    refine hother ?_ (by simp)
    simp only [runGoroutine]
    split <;> rfl
  | stopTask termination => simp [runGoroutine]
  | cleanUp termination =>
    refine hother ?_ (by simp)
    simp only [runGoroutine]
    split <;> rfl

-- a context keeps its container and its URL for as long as it is registered
theorem get_runGoroutine {taskID : String} {taskCtx : TaskContext}
    (h : (runGoroutine e i answers g).taskInstances.get taskID = some taskCtx) :
    (∃ old, e.taskInstances.get taskID = some old ∧ old.containerID = taskCtx.containerID ∧
      old.refURL = taskCtx.refURL) ∨
        ∃ task, g = .register task taskCtx.containerID taskCtx.refURL ∧ task.id = taskID := by
  cases g with
  | startTask task =>
    simp only [runGoroutine] at h
    split at h
    · exact .inl ⟨taskCtx, h, rfl, rfl⟩
    · exact .inl ⟨taskCtx, h, rfl, rfl⟩
  | register task containerID refURL =>
    simp only [runGoroutine, GoMap.get_set] at h
    split_ifs at h with hid
    · obtain rfl := Option.some.inj h
      exact .inr ⟨task, by simp [taskContext], hid.symm⟩
    · exact .inl ⟨taskCtx, h, rfl, rfl⟩
  | delayedInputs taskInstanceID =>
    simp only [runGoroutine, handleDelayedAddInputCommands] at h
    split at h
    · exact .inl ⟨taskCtx, h, rfl, rfl⟩
    · split at h
      · exact .inl ⟨taskCtx, h, rfl, rfl⟩
      · exact .inl ⟨taskCtx, h, rfl, rfl⟩
      case h_3 old _ _ hold _ =>
        rw [GoMap.get_set] at h
        split_ifs at h with hid
        · obtain rfl := Option.some.inj h
          exact .inl ⟨old, by rw [hid, hold], by simp, by simp⟩
        · exact .inl ⟨taskCtx, h, rfl, rfl⟩
  | lookUp taskID paused =>
    simp only [runGoroutine] at h
    split at h
    · exact .inl ⟨taskCtx, h, rfl, rfl⟩
    · exact .inl ⟨taskCtx, h, rfl, rfl⟩
  | stopTask termination => exact .inl ⟨taskCtx, h, rfl, rfl⟩
  | cleanUp termination =>
    simp only [runGoroutine] at h
    split at h
    · exact .inl ⟨taskCtx, h, rfl, rfl⟩
    · exact .inl ⟨taskCtx, (GoMap.get_of_get_delete h).2, rfl, rfl⟩

end Executor

section Invariant

variable {engine : Engine} {startActualTask : Bool} {s t : System} {i : Nat} {task : DockerTask}
  {phase : Phase} {next : List DockerGoroutine}

theorem removing_subset_busy {c : Nat} {g : DockerGoroutine} (h : c ∈ g.removing) : c ∈ g.busy := by
  cases g with
  | starting task phase =>
    cases phase with
    | removeContainer attempt prepared container err => exact h
    | _ => cases h
  | other g => cases h

theorem mem_holding_of_busy {c : Nat} {g : DockerGoroutine} (hg : g ∈ s.goroutines)
    (h : c ∈ g.busy) : c ∈ holding s :=
  List.mem_append_left _ (List.mem_flatMap.mpr ⟨g, hg, h⟩)

theorem mem_holding_of_launch {launch : Launch} (h : launch ∈ s.launches) :
    launch.container ∈ holding s :=
  List.mem_append_right _ (List.mem_map_of_mem h)

theorem not_busy_of_launch (h : Sound engine s) {launch : Launch} (hl : launch ∈ s.launches)
    {g : DockerGoroutine} (hg : g ∈ s.goroutines) : launch.container ∉ g.busy := by
  intro hbusy
  exact (List.nodup_append.mp h.held).2.2 _ (List.mem_flatMap.mpr ⟨g, hg, hbusy⟩) _
    (List.mem_map_of_mem hl) rfl

theorem launch_unique (h : Sound engine s) {n m : Nat} {launch launch' : Launch}
    (hn : s.launches[n]? = some launch) (hm : s.launches[m]? = some launch')
    (hsame : launch.container = launch'.container) : n = m := by
  have hn' : (s.launches.map Launch.container)[n]? = some launch.container := by
    rw [List.getElem?_map, hn]
    rfl
  have hm' : (s.launches.map Launch.container)[m]? = some launch'.container := by
    rw [List.getElem?_map, hm]
    rfl
  have hnodup := (List.nodup_append.mp h.held).2.1
  obtain ⟨hlt, hget⟩ := List.getElem?_eq_some_iff.mp hn'
  obtain ⟨hlt', hget'⟩ := List.getElem?_eq_some_iff.mp hm'
  exact (hnodup.getElem_inj_iff).mp (hget.trans (hsame.trans hget'.symm))

theorem Refers.mono {launches : List Launch} {taskID url : String} {containerID : Nat}
    (h : Refers engine launches taskID containerID url) (more : List Launch) :
    Refers engine (launches ++ more) taskID containerID url := by
  obtain ⟨launch, hget, hid, hurl⟩ := h
  refine ⟨launch, ?_, hid, hurl⟩
  rw [List.getElem?_append_left (List.getElem?_eq_some_iff.mp hget).1, hget]

theorem Fits.mono {daemon daemon' : Daemon} {launches : List Launch} {g : DockerGoroutine}
    (h : Fits engine daemon launches g)
    (hoptions : ∀ c options, optionsAt daemon c = some options →
      optionsAt daemon' c = some options) (more : List Launch) :
    Fits engine daemon' (launches ++ more) g := by
  cases g with
  | starting task phase =>
    cases phase with
    | startContainer attempt prepared container freePort => exact hoptions _ _ h
    | _ => trivial
  | other g =>
    cases g with
    | register task containerID url => exact Refers.mono h more
    | _ => trivial

-- a call of StartTask acts on no container but its own, and hands over what it does not keep
theorem sound_moved (h : Sound engine s) (hg : s.goroutines[i]? = some (.starting task phase))
    {daemon : Daemon} {extra : List Nat}
    (hoptions : ∀ c options, optionsAt s.daemon c = some options →
      optionsAt daemon c = some options)
    (hstatus : ∀ c, c ∉ phase.container → c < s.daemon.length →
      statusAt daemon c = statusAt s.daemon c)
    (hlength : s.daemon.length ≤ daemon.length)
    (hnodup : (next.flatMap DockerGoroutine.busy).Nodup)
    (howned : ∀ c ∈ next.flatMap DockerGoroutine.busy,
      c ∈ phase.container ∨ s.daemon.length ≤ c ∧ c < daemon.length)
    (hfits : ∀ g ∈ next, Fits engine daemon s.launches g)
    (hrunning : ∀ c, c ∈ phase.container ∨ s.daemon.length ≤ c →
      statusAt daemon c = some .running →
        c ∈ next.flatMap DockerGoroutine.removing ∨ c ∈ extra) :
    Sound engine { s with
      goroutines := Pool.replace s.goroutines i next, daemon, left := s.left ++ extra } := by
  have hmem := List.mem_of_getElem? hg
  have hcount (c : Nat) := (Pool.perm_flatMap_replace DockerGoroutine.busy hg next).count_eq c
  have hheld (c : Nat) := List.nodup_iff_count_le_one.mp h.held c
  simp only [holding, List.count_append] at hcount hheld
  refine ⟨h.started, ?_, ?_, ?_, ?_, ?_, ?_, h.stopping, h.registered⟩
  · rw [List.nodup_iff_count_le_one]
    intro c
    have hcount := hcount c
    have hheld := hheld c
    have hnew := List.nodup_iff_count_le_one.mp hnodup c
    simp only [holding, List.count_append]
    by_cases hc : c ∈ next.flatMap DockerGoroutine.busy
    · rcases howned c hc with hown | ⟨hfresh, -⟩
      · have hown := List.count_pos_iff.mpr hown
        simp only [DockerGoroutine.busy] at hcount
        omega
      · have habsent : c ∉ holding s := fun hin => absurd (h.created c hin) (by omega)
        have habsent := List.count_eq_zero.mpr habsent
        simp only [holding, List.count_append] at habsent
        omega
    · have hc := List.count_eq_zero.mpr hc
      omega
  · intro c hc
    rcases List.mem_append.mp hc with hc | hc
    · obtain ⟨g, hin, hbusy⟩ := List.mem_flatMap.mp hc
      rcases Pool.mem_replace hin with hin | hin
      · exact (h.created c (mem_holding_of_busy hin hbusy)).trans_le hlength
      · rcases howned c (List.mem_flatMap.mpr ⟨g, hin, hbusy⟩) with hown | ⟨-, hlt⟩
        · exact (h.created c (mem_holding_of_busy hmem hown)).trans_le hlength
        · exact hlt
    · exact (h.created c (List.mem_append_right _ hc)).trans_le hlength
  · intro g hin
    rcases Pool.mem_replace hin with hin | hin
    · simpa using (h.fits g hin).mono hoptions []
    · exact hfits g hin
  · exact fun launch hl => hoptions _ _ (h.launched launch hl)
  · intro n taskID hcounted
    obtain ⟨launch, hget, hid, hrun⟩ := h.counted n taskID hcounted
    have hl := List.mem_of_getElem? hget
    refine ⟨launch, hget, hid, ?_⟩
    rw [hstatus _ (not_busy_of_launch h hl hmem) (h.created _ (mem_holding_of_launch hl))]
    exact hrun
  · intro c hrun
    by_cases hmine : c ∈ phase.container ∨ s.daemon.length ≤ c
    · rcases hrunning c hmine hrun with hkept | hleft
      · obtain ⟨g, hin, hc⟩ := List.mem_flatMap.mp hkept
        exact .inr (.inl (List.mem_flatMap.mpr ⟨g, Pool.mem_replace_of_next hin, hc⟩))
      · exact .inr (.inr (.inr (List.mem_append_right _ hleft)))
    · simp only [not_or, Nat.not_le] at hmine
      rw [hstatus c hmine.1 hmine.2] at hrun
      rcases h.running c hrun with hcounted | hremoving | hstopping | hleft
      · exact .inl hcounted
      · obtain ⟨g, hin, hc⟩ := List.mem_flatMap.mp hremoving
        rcases Pool.mem_replace_of_mem hg hin with rfl | hin
        · exact absurd (removing_subset_busy hc) hmine.1
        · exact .inr (.inl (List.mem_flatMap.mpr ⟨g, hin, hc⟩))
      · exact .inr (.inr (.inl hstopping))
      · exact .inr (.inr (.inr (List.mem_append_left _ hleft)))

-- a StartTask that returns hands its container to the executor
theorem sound_started (h : Sound engine s) {attempt container : Nat} {prepared : Prepared}
    {freePort : String} (hg : s.goroutines[i]? =
      some (.starting task (.startContainer attempt prepared container freePort))) :
    Sound engine (launched s i task (setStatus s.daemon container .running) s.left engine.cfg
      (.started prepared container freePort)) := by
  have hmem := List.mem_of_getElem? hg
  have hown := mem_holding_of_busy hmem (List.mem_singleton.mpr rfl)
  have hnew : (s.launches ++ [⟨container, task, prepared, freePort⟩])[s.executor.started]? =
      some ⟨container, task, prepared, freePort⟩ := by
    rw [← h.started, List.getElem?_append_right (Nat.le_refl _), Nat.sub_self]
    rfl
  have hold {n : Nat} {launch : Launch} (hget : s.launches[n]? = some launch) :
      (s.launches ++ [⟨container, task, prepared, freePort⟩])[n]? = some launch := by
    rw [List.getElem?_append_left (List.getElem?_eq_some_iff.mp hget).1, hget]
  have hrefers : Refers engine (s.launches ++ [⟨container, task, prepared, freePort⟩]) task.id
      s.executor.started (refURL engine.cfg freePort) := ⟨_, hnew, rfl, rfl⟩
  have hperm := (Pool.perm_flatMap_replace DockerGoroutine.busy hg
    [.other (.register task.toScheduledTaskInstance s.executor.started
      (refURL engine.cfg freePort))])
  refine ⟨?_, ?_, ?_, ?_, ?_, ?_, ?_, ?_, ?_⟩
  · simp [launched, runGoroutine, System.whole, h.started]
  · rw [List.nodup_iff_count_le_one]
    intro c
    have hcount := hperm.count_eq c
    have hheld := List.nodup_iff_count_le_one.mp h.held c
    simp only [holding, launched, List.count_append, List.map_append, List.map_cons, List.map_nil,
      List.flatMap_cons, List.flatMap_nil, DockerGoroutine.busy, Phase.container,
      List.append_nil, List.nil_append] at hcount hheld ⊢
    omega
  · intro c hc
    simp only [launched, length_setStatus]
    rcases List.mem_append.mp hc with hc | hc
    · obtain ⟨g, hin, hbusy⟩ := List.mem_flatMap.mp hc
      rcases Pool.mem_replace hin with hin | hin
      · exact h.created c (mem_holding_of_busy hin hbusy)
      · rw [List.mem_singleton.mp hin] at hbusy
        cases hbusy
    · simp only [launched, List.map_append, List.mem_append] at hc
      rcases hc with hc | hc
      · exact h.created c (List.mem_append_right _ hc)
      · rw [List.mem_singleton.mp hc]
        exact h.created container hown
  · intro g hin
    rcases Pool.mem_replace hin with hin | hin
    · refine (h.fits g hin).mono (fun c options hc => ?_) _
      simpa only [launched, optionsAt_setStatus] using hc
    · rw [List.mem_singleton.mp hin]
      exact hrefers
  · intro launch hl
    simp only [launched, optionsAt_setStatus]
    rcases List.mem_append.mp hl with hl | hl
    · exact h.launched launch hl
    · rw [List.mem_singleton.mp hl]
      exact h.fits _ hmem
  · intro n taskID hcounted
    rcases List.mem_append.mp hcounted with hcounted | hcounted
    · obtain ⟨launch, hget, hid, hrun⟩ := h.counted n taskID hcounted
      refine ⟨launch, hold hget, hid, ?_⟩
      have hne : launch.container ≠ container := by
        intro heq
        exact not_busy_of_launch h (List.mem_of_getElem? hget) hmem (by simp [heq,
          DockerGoroutine.busy, Phase.container])
      simp only [launched]
      rw [statusAt_setStatus_ne hne, hrun]
    · obtain ⟨rfl, rfl⟩ := Prod.mk.inj (List.mem_singleton.mp hcounted)
      exact ⟨_, hnew, rfl, statusAt_setStatus_self (h.created container hown)⟩
  · intro c hrun
    by_cases hc : c = container
    · exact .inl ⟨_, _, _, List.mem_append_right _ (List.mem_singleton.mpr rfl), hnew, hc.symm⟩
    · simp only [launched] at hrun
      rw [statusAt_setStatus_ne hc] at hrun
      rcases h.running c hrun with hcounted | hremoving | hstopping | hleft
      · obtain ⟨n, taskID, launch, hin, hget, hsame⟩ := hcounted
        exact .inl ⟨n, taskID, launch, List.mem_append_left _ hin, hold hget, hsame⟩
      · obtain ⟨g, hin, hremoves⟩ := List.mem_flatMap.mp hremoving
        rcases Pool.mem_replace_of_mem hg hin with rfl | hin
        · cases hremoves
        · exact .inr (.inl (List.mem_flatMap.mpr ⟨g, hin, hremoves⟩))
      · exact .inr (.inr (.inl hstopping))
      · exact .inr (.inr (.inr hleft))
  · intro c hc
    obtain ⟨n, launch, hget, hsame, hnone⟩ := h.stopping c hc
    refine ⟨n, launch, hold hget, hsame, fun taskID hin => ?_⟩
    rcases List.mem_append.mp hin with hin | hin
    · exact hnone taskID hin
    · have hlt := (List.getElem?_eq_some_iff.mp hget).1
      have heq := (Prod.mk.inj (List.mem_singleton.mp hin)).1
      rw [h.started, heq] at hlt
      exact lt_irrefl _ hlt
  · exact fun taskID taskCtx hget => (h.registered taskID taskCtx hget).mono _

-- what is left of a failed attempt is at most the next one
theorem sound_retry (h : Sound engine s) (hg : s.goroutines[i]? = some (.starting task phase))
    {daemon : Daemon} {extra : List Nat}
    (hoptions : ∀ c options, optionsAt s.daemon c = some options →
      optionsAt daemon c = some options)
    (hstatus : ∀ c, c ∉ phase.container → c < s.daemon.length →
      statusAt daemon c = statusAt s.daemon c)
    (hlength : daemon.length = s.daemon.length)
    (hleft : ∀ c ∈ phase.container, statusAt daemon c = some .running → c ∈ extra)
    {outcome : Outcome} (hnext : outcome = .failed ∨ ∃ attempt prepared,
      outcome = .goOn (.createContainer attempt prepared)) :
    Sound engine (launched s i task daemon (s.left ++ extra) engine.cfg outcome) := by
  have hmoved {next : List DockerGoroutine}
      (hquiet : next = [] ∨ ∃ attempt prepared,
        next = [.starting task (.createContainer attempt prepared)]) :
      Sound engine { s with
        goroutines := Pool.replace s.goroutines i next, daemon, left := s.left ++ extra } := by
    have hbusy : next.flatMap DockerGoroutine.busy = [] := by
      rcases hquiet with rfl | ⟨attempt, prepared, rfl⟩ <;> rfl
    refine sound_moved h hg hoptions hstatus hlength.ge (by simp [hbusy]) (by simp [hbusy]) ?_ ?_
    · rcases hquiet with rfl | ⟨attempt, prepared, rfl⟩
      · simp
      · intro g hin
        rw [List.mem_singleton.mp hin]
        trivial
    · intro c hc hrun
      have hlt := lt_of_statusAt hrun
      exact .inr (hleft c (hc.resolve_right (by omega)) hrun)
  rcases hnext with rfl | ⟨attempt, prepared, rfl⟩
  · exact hmoved (.inl rfl)
  · exact hmoved (.inr ⟨attempt, prepared, rfl⟩)

theorem sound_idle (h : Sound engine s) (hg : s.goroutines[i]? = some (.starting task phase))
    (hidle : phase.container = []) {outcome : Outcome}
    (hnext : outcome = .failed ∨ ∃ attempt prepared,
      outcome = .goOn (.createContainer attempt prepared)) :
    Sound engine (launched s i task s.daemon (s.left ++ []) engine.cfg outcome) :=
  sound_retry h hg (fun _ _ ho => ho) (fun _ _ _ => rfl) rfl (by simp [hidle]) hnext

theorem retry_cases (attempt : Nat) (prepared : Prepared) (err : String) :
    retry attempt prepared err = .failed ∨ ∃ attempt' prepared',
      retry attempt prepared err = .goOn (.createContainer attempt' prepared') := by
  unfold retry
  split_ifs
  · exact .inr ⟨_, _, rfl⟩
  · exact .inl rfl

theorem sound_created (h : Sound engine s) {attempt : Nat} {prepared : Prepared}
    (hg : s.goroutines[i]? = some (.starting task (.createContainer attempt prepared)))
    (freePort : String) :
    Sound engine (launched s i task
      (s.daemon ++ [⟨engine.options task prepared freePort, .created⟩]) (s.left ++ []) engine.cfg
      (.goOn (.startContainer attempt prepared s.daemon.length freePort))) := by
  have hlast : (s.daemon ++ [(⟨engine.options task prepared freePort, .created⟩ : Container)])[
      s.daemon.length]? = some ⟨engine.options task prepared freePort, .created⟩ := by
    rw [List.getElem?_append_right (Nat.le_refl _), Nat.sub_self]
    rfl
  refine sound_moved h hg (fun c options hc => optionsAt_append hc _)
    (fun c _ hlt => statusAt_append hlt _) (by simp) (by simp [DockerGoroutine.busy,
      Phase.container]) ?_ ?_ ?_
  · intro c hc
    simp only [List.flatMap_cons, List.flatMap_nil, DockerGoroutine.busy, Phase.container,
      List.append_nil, List.mem_singleton] at hc
    simp [hc]
  · intro g hin
    rw [List.mem_singleton.mp hin]
    simp only [Fits, optionsAt, hlast, Option.map_some]
  · intro c hc hrun
    have hlt := lt_of_statusAt hrun
    have hc : c = s.daemon.length := by
      simp only [Phase.container, List.not_mem_nil, false_or] at hc
      rw [List.length_append, List.length_singleton] at hlt
      omega
    rw [hc, statusAt, hlast] at hrun
    cases hrun

theorem sound_removing (h : Sound engine s) {attempt container : Nat} {prepared : Prepared}
    {freePort err : String} {running : Bool} (hg : s.goroutines[i]? =
      some (.starting task (.startContainer attempt prepared container freePort))) :
    Sound engine (launched s i task
      (if running then setStatus s.daemon container .running else s.daemon) (s.left ++ [])
      engine.cfg (.goOn (.removeContainer attempt prepared container err))) := by
  have hkept {c : Nat} (hc : c ∈ (Phase.startContainer attempt prepared container
      freePort).container ∨ s.daemon.length ≤ c) (hlt : c < s.daemon.length) :
      c ∈ [DockerGoroutine.starting task (.removeContainer attempt prepared container
        err)].flatMap DockerGoroutine.removing := by
    rcases hc with hc | hc
    · rw [List.flatMap_singleton]
      exact hc
    · omega
  refine sound_moved h hg ?_ ?_ ?_ (by simp [DockerGoroutine.busy, Phase.container]) ?_ ?_ ?_
  · intro c options hc
    cases running with
    | true => simpa using hc
    | false => exact hc
  · intro c hc _
    cases running with
    | true => exact statusAt_setStatus_ne (by simpa [Phase.container] using hc)
    | false => rfl
  · cases running with
    | true => simp
    | false => exact Nat.le_refl _
  · intro c hc
    rw [List.flatMap_singleton] at hc
    exact .inl hc
  · intro g hin
    rw [List.mem_singleton.mp hin]
    trivial
  · intro c hc hrun
    refine .inl (hkept hc ?_)
    have hlt := lt_of_statusAt hrun
    cases running with
    | true => simpa using hlt
    | false => exact hlt

-- a container that is removed is gone, and one that is not is left behind
theorem sound_removed (h : Sound engine s) {attempt container : Nat} {prepared : Prepared}
    {err : String} {done : Bool} (hg : s.goroutines[i]? =
      some (.starting task (.removeContainer attempt prepared container err))) :
    Sound engine (launched s i task
      (if done then setStatus s.daemon container .removed else s.daemon)
      (s.left ++ leftBehind (.removeContainer attempt prepared container err) (.removed done))
      engine.cfg (retry attempt prepared err)) := by
  have hlt := h.created container (mem_holding_of_busy (List.mem_of_getElem? hg)
    (List.mem_singleton.mpr rfl))
  refine sound_retry h hg ?_ ?_ ?_ ?_ (retry_cases attempt prepared err)
  · intro c options hc
    cases done with
    | true => simpa using hc
    | false => exact hc
  · intro c hc _
    cases done with
    | true => exact statusAt_setStatus_ne (by simpa [Phase.container] using hc)
    | false => rfl
  · cases done with
    | true => simp
    | false => rfl
  · intro c hc hrun
    rw [List.mem_singleton.mp hc] at hrun ⊢
    cases done with
    | true =>
      rw [if_pos rfl, statusAt_setStatus_self hlt] at hrun
      cases hrun
    | false => exact List.mem_singleton.mpr rfl

theorem sound_startTask (h : Sound engine s)
    (hg : s.goroutines[i]? = some (.starting task phase)) {reply : Reply}
    {outcome : Outcome} {daemon : Daemon}
    (hnext : startTask engine task s.daemon phase reply = some (outcome, daemon)) :
    Sound engine (launched s i task daemon (s.left ++ leftBehind phase reply) engine.cfg
      outcome) := by
  unfold startTask at hnext
  split at hnext
  case h_1 found pulled rank =>
    split at hnext
    · obtain ⟨rfl, rfl⟩ := Prod.mk.inj (Option.some.inj hnext)
      exact sound_idle h hg rfl (.inl rfl)
    · split at hnext
      · obtain ⟨rfl, rfl⟩ := Prod.mk.inj (Option.some.inj hnext)
        exact sound_idle h hg rfl (.inr ⟨_, _, rfl⟩)
      · obtain ⟨rfl, rfl⟩ := Prod.mk.inj (Option.some.inj hnext)
        simp only [launched, leftBehind, List.append_nil]
        exact ⟨h.started, h.held, h.created, h.fits, h.launched, h.counted, h.running,
          h.stopping, h.registered⟩
  case h_2 attempt prepared freePort err =>
    obtain ⟨rfl, rfl⟩ := Prod.mk.inj (Option.some.inj hnext)
    exact sound_idle h hg rfl (retry_cases attempt prepared err)
  case h_3 attempt prepared freePort =>
    obtain ⟨rfl, rfl⟩ := Prod.mk.inj (Option.some.inj hnext)
    exact sound_created h hg freePort
  case h_4 attempt prepared container freePort running =>
    obtain ⟨rfl, rfl⟩ := Prod.mk.inj (Option.some.inj hnext)
    simp only [leftBehind, List.append_nil]
    exact sound_started h hg
  case h_5 attempt prepared container freePort err running =>
    obtain ⟨rfl, rfl⟩ := Prod.mk.inj (Option.some.inj hnext)
    exact sound_removing h hg
  case h_6 attempt prepared container err done =>
    obtain ⟨rfl, rfl⟩ := Prod.mk.inj (Option.some.inj hnext)
    exact sound_removed h hg
  case h_7 => cases hnext

theorem sound_spawned (h : Sound engine s) {g : DockerGoroutine} (hbusy : g.busy = [])
    (hfits : Fits engine s.daemon s.launches g) :
    Sound engine { s with goroutines := s.goroutines ++ [g] } := by
  have hholding : holding { s with goroutines := s.goroutines ++ [g] } = holding s := by
    simp [holding, hbusy]
  refine ⟨h.started, hholding ▸ h.held, fun c hc => h.created c (hholding ▸ hc), ?_, h.launched,
    h.counted, ?_, h.stopping, h.registered⟩
  · intro g' hin
    rcases List.mem_append.mp hin with hin | hin
    · exact h.fits g' hin
    · rw [List.mem_singleton.mp hin]
      exact hfits
  · intro c hrun
    refine (h.running c hrun).imp_right (Or.imp_left (fun hremoving => ?_))
    rw [List.flatMap_append]
    exact List.mem_append_left _ hremoving

-- the inputs of a task change neither the containers nor where a context points
theorem sound_inputs (h : Sound engine s) {e : Executor}
    (hcontainers : e.containers = s.executor.containers) (hstarted : e.started = s.executor.started)
    (hget : ∀ taskID taskCtx, e.taskInstances.get taskID = some taskCtx →
      ∃ old, s.executor.taskInstances.get taskID = some old ∧
        old.containerID = taskCtx.containerID ∧ old.refURL = taskCtx.refURL) :
    Sound engine { s with executor := e } := by
  refine ⟨h.started.trans hstarted.symm, h.held, h.created, h.fits, h.launched, ?_, ?_, ?_, ?_⟩
  · rw [hcontainers]
    exact h.counted
  · intro c hrun
    refine (h.running c hrun).imp_left ?_
    unfold Counted
    rw [hcontainers]
    exact id
  · rw [hcontainers]
    exact h.stopping
  · intro taskID taskCtx hctx
    obtain ⟨old, hold, hcontainer, hurl⟩ := hget taskID taskCtx hctx
    rw [← hcontainer, ← hurl]
    exact h.registered taskID old hold

theorem sound_onAddInput (h : Sound engine s) (flow : FlowInfo) (answer : Option String) :
    Sound engine { s with executor := onAddInput startActualTask s.executor flow answer } := by
  unfold onAddInput
  split_ifs
  · exact h
  · split
    case h_1 old hold =>
      refine sound_inputs h rfl rfl (fun taskID taskCtx hget => ?_)
      rw [GoMap.get_set] at hget
      split_ifs at hget with hid
      · obtain rfl := Option.some.inj hget
        refine ⟨old, by rw [hid, hold], by simp, ?_⟩
        unfold subscribed
        split <;> rfl
      · exact ⟨taskCtx, hget, rfl, rfl⟩
    case h_2 => exact sound_inputs h rfl rfl (fun _ taskCtx hget => ⟨taskCtx, hget, rfl, rfl⟩)

theorem sound_onRemoveInput (h : Sound engine s) (flow : FlowInfo) :
    Sound engine { s with executor := onRemoveInput startActualTask s.executor flow } := by
  unfold onRemoveInput
  split_ifs
  · exact h
  · split
    case h_1 => exact sound_inputs h rfl rfl (fun _ taskCtx hget => ⟨taskCtx, hget, rfl, rfl⟩)
    case h_2 old hold =>
      refine sound_inputs h rfl rfl (fun taskID taskCtx hget => ?_)
      dsimp only at hget
      rw [GoMap.get_set] at hget
      split_ifs at hget with hid
      · obtain rfl := Option.some.inj hget
        exact ⟨old, by rw [hid, hold], rfl, rfl⟩
      · exact ⟨taskCtx, hget, rfl, rfl⟩

theorem mem_stopped {c : Nat} {g : Goroutine} : c ∈ stopped s g ↔ ∃ termination launch,
    g = .stopTask termination ∧ s.launches[termination.containerID]? = some launch ∧
      launch.container = c := by
  cases g with
  | stopTask termination => simp [stopped, Option.map_eq_some_iff]
  | _ => simp [stopped]

theorem fits_after (g : Goroutine) {e : Executor} {daemon : Daemon} {launches : List Launch}
    {next : Goroutine} (hnext : next ∈ after e g) : Fits engine daemon launches (.other next) := by
  cases g with
  | startTask task => cases hnext
  | register task containerID refURL =>
    rw [List.mem_singleton.mp hnext]
    trivial
  | delayedInputs taskInstanceID => cases hnext
  | lookUp taskID paused =>
    simp only [after] at hnext
    split at hnext
    · cases hnext
    · rw [List.mem_singleton.mp hnext]
      trivial
  | stopTask termination =>
    rw [List.mem_singleton.mp hnext]
    trivial
  | cleanUp termination =>
    simp only [after] at hnext
    split at hnext
    · rw [List.mem_singleton.mp hnext]
      trivial
    · cases hnext

theorem flatMap_replace_other {f : DockerGoroutine → List Nat} (hf : ∀ g, f (.other g) = [])
    {g : Goroutine} (hg : s.goroutines[i]? = some (.other g)) (rest : List Goroutine) (c : Nat) :
    ((Pool.replace s.goroutines i (rest.map .other)).flatMap f).count c =
      (s.goroutines.flatMap f).count c := by
  have hrest : (rest.map DockerGoroutine.other).flatMap f = [] := by
    simp [List.flatMap_map, hf]
  have hcount := (Pool.perm_flatMap_replace f hg (rest.map .other)).count_eq c
  simpa [hf, hrest] using hcount

-- the executor gives a container up only to the goroutine that stops it
theorem sound_run (h : Sound engine s) {g : Goroutine} {answers : Answers}
    (hg : s.goroutines[i]? = some (.other g)) (hstart : ∀ task, g ≠ .startTask task) :
    Sound engine { s with
      executor := runGoroutine s.whole i answers g
      goroutines := Pool.replace s.goroutines i ((after s.whole g).map .other)
      stopping := s.stopping ++ stopped s g } := by
  have hmem := List.mem_of_getElem? hg
  have hcontainers (n : Nat) (taskID : String) :
      (n, taskID) ∈ (runGoroutine s.whole i answers g).containers ↔ _ :=
    mem_containers_runGoroutine hstart
  have hstarted : (runGoroutine s.whole i answers g).started = s.executor.started :=
    started_runGoroutine hstart
  have hbusy (c : Nat) : (holding { s with
      goroutines := Pool.replace s.goroutines i ((after s.whole g).map .other) }).count c =
        (holding s).count c := by
    simp only [holding, List.count_append]
    rw [flatMap_replace_other (fun _ => rfl) hg]
  refine ⟨?_, ?_, ?_, ?_, h.launched, ?_, ?_, ?_, ?_⟩
  · exact h.started.trans hstarted.symm
  · rw [List.nodup_iff_count_le_one]
    exact fun c => (hbusy c).trans_le (List.nodup_iff_count_le_one.mp h.held c)
  · intro c hc
    exact h.created c (List.count_pos_iff.mp ((hbusy c) ▸ List.count_pos_iff.mpr hc))
  · intro g' hin
    rcases Pool.mem_replace hin with hin | hin
    · exact h.fits g' hin
    · obtain ⟨next, hnext, rfl⟩ := List.mem_map.mp hin
      exact fits_after g hnext
  · intro n taskID hcounted
    exact h.counted n taskID ((hcontainers n taskID).mp hcounted).1
  · intro c hrun
    rcases h.running c hrun with hcounted | hremoving | hstopping | hleft
    · obtain ⟨n, taskID, launch, hin, hget, hsame⟩ := hcounted
      by_cases hstop : ∃ termination, g = .stopTask termination ∧ n = termination.containerID
      · obtain ⟨termination, rfl, rfl⟩ := hstop
        exact .inr (.inr (.inl (List.mem_append_right _
          (mem_stopped.mpr ⟨termination, launch, rfl, hget, hsame⟩))))
      · refine .inl ⟨n, taskID, launch, (hcontainers n taskID).mpr ⟨hin, ?_⟩, hget, hsame⟩
        exact fun termination heq hn => hstop ⟨termination, heq, hn⟩
    · refine .inr (.inl (List.count_pos_iff.mp ?_))
      dsimp only
      rw [flatMap_replace_other (fun _ => rfl) hg]
      exact List.count_pos_iff.mpr hremoving
    · exact .inr (.inr (.inl (List.mem_append_left _ hstopping)))
    · exact .inr (.inr (.inr hleft))
  · intro c hc
    rcases List.mem_append.mp hc with hc | hc
    · obtain ⟨n, launch, hget, hsame, hnone⟩ := h.stopping c hc
      exact ⟨n, launch, hget, hsame, fun taskID hin => hnone taskID ((hcontainers n taskID).mp hin).1⟩
    · obtain ⟨termination, launch, rfl, hget, hsame⟩ := mem_stopped.mp hc
      refine ⟨termination.containerID, launch, hget, hsame, fun taskID hin => ?_⟩
      exact ((hcontainers _ taskID).mp hin).2 termination rfl rfl
  · intro taskID taskCtx hget
    rcases get_runGoroutine hget with ⟨old, hold, hcontainer, hurl⟩ | ⟨task, rfl, hid⟩
    · rw [← hcontainer, ← hurl]
      exact h.registered taskID old hold
    · rw [← hid]
      exact h.fits _ hmem

theorem sound_stopContainer (h : Sound engine s) {k container : Nat} {done : Bool}
    (hk : s.stopping[k]? = some container) :
    Sound engine { s with
      daemon := if done then setStatus s.daemon container .stopped else s.daemon
      stopping := s.stopping.eraseIdx k
      left := if done then s.left else s.left ++ [container] } := by
  have hsplit (c : Nat) : c ∈ s.stopping ↔ c = container ∨ c ∈ s.stopping.eraseIdx k := by
    obtain ⟨before, after, -, hpool, -, herase⟩ := Pool.split_of_getElem? hk
    rw [herase, hpool]
    simp only [List.mem_append, List.mem_cons]
    tauto
  obtain ⟨n, launch, hget, hsame, hnone⟩ := h.stopping container ((hsplit container).mpr (.inl rfl))
  have hkept (c : Nat) (hc : c ∈ s.stopping.eraseIdx k) := h.stopping c ((hsplit c).mpr (.inr hc))
  cases done with
  | true =>
    refine ⟨h.started, h.held, fun c hc => ?_, fun g hin => ?_, fun l hl => ?_, ?_, ?_, hkept,
      h.registered⟩
    · simpa using h.created c hc
    · simpa using (h.fits g hin).mono (fun c options hc => by simpa using hc) []
    · simpa using h.launched l hl
    · intro m taskID hcounted
      obtain ⟨launch', hget', hid, hrun⟩ := h.counted m taskID hcounted
      refine ⟨launch', hget', hid, ?_⟩
      have hne : launch'.container ≠ container := by
        rintro heq
        have hnm := launch_unique h hget hget' (hsame.trans heq.symm)
        exact hnone taskID (hnm ▸ hcounted)
      exact (statusAt_setStatus_ne hne).trans hrun
    · intro c hrun
      by_cases hc : c = container
      · rw [if_pos rfl, hc, statusAt_setStatus_self] at hrun
        · cases hrun
        · exact hsame ▸ h.created _ (mem_holding_of_launch (List.mem_of_getElem? hget))
      · rw [if_pos rfl, statusAt_setStatus_ne hc] at hrun
        refine (h.running c hrun).imp_right (Or.imp_right (Or.imp_left (fun hin => ?_)))
        exact ((hsplit c).mp hin).resolve_left hc
  | false =>
    refine ⟨h.started, h.held, h.created, h.fits, h.launched, h.counted, ?_, hkept,
      h.registered⟩
    intro c hrun
    rcases h.running c hrun with hcounted | hremoving | hstopping | hleft
    · exact .inl hcounted
    · exact .inr (.inl hremoving)
    · rcases (hsplit c).mp hstopping with rfl | hin
      · exact .inr (.inr (.inr (List.mem_append_right _ (List.mem_singleton.mpr rfl))))
      · exact .inr (.inr (.inl hin))
    · exact .inr (.inr (.inr (List.mem_append_left _ hleft)))

theorem sound_init : Sound engine .init where
  started := rfl
  held := List.nodup_nil
  created := by simp [holding, System.init]
  fits := by simp [System.init]
  launched := by simp [System.init]
  counted := by simp [System.init, Executor.init]
  running c hrun := by simp [statusAt, System.init] at hrun
  stopping := by simp [System.init]
  registered := by simp [System.init, Executor.init]

theorem sound_step (h : Sound engine s) {label : Label}
    (hs : step engine startActualTask s label = some t) : Sound engine t := by
  obtain ⟨-, hs⟩ := act_of_step hs
  cases label with
  | launchTask task =>
    obtain rfl := Option.some.inj hs
    exact sound_spawned h rfl trivial
  | terminateTask taskID paused =>
    obtain rfl := Option.some.inj hs
    exact sound_spawned h rfl trivial
  | onAddInput flow answer =>
    obtain rfl := Option.some.inj hs
    exact sound_onAddInput h flow answer
  | onRemoveInput flow =>
    obtain rfl := Option.some.inj hs
    exact sound_onRemoveInput h flow
  | startTask i reply =>
    dsimp only [act] at hs
    split at hs
    case h_1 task phase hg =>
      obtain ⟨next, hnext, rfl⟩ := Option.map_eq_some_iff.mp hs
      exact sound_startTask h hg hnext
    case h_2 => cases hs
  | run i answers =>
    dsimp only [act] at hs
    split at hs
    case h_1 => cases hs
    case h_2 g hstart hg =>
      obtain rfl := Option.some.inj hs
      exact sound_run h hg (fun task heq => hstart task (by rw [heq]))
    case h_3 => cases hs
  | stopContainer k done =>
    obtain ⟨container, hk, rfl⟩ := Option.map_eq_some_iff.mp hs
    exact sound_stopContainer h hk

theorem sound_exec {labels : List Label}
    (h : exec (step engine startActualTask) .init labels = some s) : Sound engine s :=
  exec_invariant (P := Sound engine) h sound_init (fun _ _ _ h hs => sound_step h hs)

-- the first port is taken, and its container cannot be removed
def retriedLaunch : List Label :=
  [.launchTask ⟨exampleTask "counter" false 0, "counter:latest", "", []⟩,
    .startTask 0 (.inspected false true (fun _ => 0)),
    .startTask 0 (.created "40001" none),
    .startTask 0 (.started (some "address already in use") true),
    .startTask 0 (.removed false),
    .startTask 0 (.created "40002" none),
    .startTask 0 (.started none true),
    .run 0 ⟨none, fun _ => none⟩]

def exampleEngine : Engine := ⟨⟨"10.0.0.7", false, []⟩, "http://broker", fun _ => ""⟩

end Invariant

end FogFlow.Worker.DockerWorker
