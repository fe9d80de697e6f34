import FogFlow.Library.Pool
import FogFlow.Master.Received

namespace FogFlow.Master

open Ngsi Datamodel Execution

structure TaskMgr where
  fogFlows : GoMap FogFlow
  subID2FogFunc : GoMap String

-- one call of HandleContextAvailabilityUpdate, started for one registered entity of a notification
structure Notice where
  serial : Nat
  subID : String
  entityAction : EntityAction
  registeredEntity : EntityRegistration

namespace IntentHandling

structure System where
  tMgr : TaskMgr
  fogflow : FogFlow
  remaining : List InputStreamConfig
  answered : Option (InputStreamConfig × String)
  published : Bool
  issued : List String
  received : List Notice
  waiting : List Notice
  resolved : List (Notice × String)
  applied : List Notice
  dropped : List Notice

def start (tMgr : TaskMgr) (taskIntent : TaskIntent) : System where
  tMgr := tMgr
  fogflow := .init taskIntent
  remaining := taskIntent.taskObject.inputStreams
  answered := none
  published := false
  issued := []
  received := []
  waiting := []
  resolved := []
  applied := []
  dropped := []

inductive Label where
  | subscribe (subID : String)
  | record
  | publish
  | receive (notice : Notice)
  | lookUp (serial : Nat)
  | orchestrate (serial : Nat) (choices : Choices) (selectWorker : Nat → List Point → String)

def fID (taskIntent : TaskIntent) : String :=
  taskIntent.topologyName ++ "." ++ taskIntent.taskObject.name

-- discovery takes a new uuid for every subscription
def isNew (s : System) (subID : String) : Bool :=
  !s.issued.contains subID && s.tMgr.subID2FogFunc.get subID == none &&
    s.tMgr.fogFlows.values.all (fun fogflow => (fogflow.subscriptions.get subID).isNone)

def subscribe (s : System) (subID : String) : Option System :=
  match s.answered, s.remaining with
  | none, inputStreamConfig :: rest =>
      if subID = "" then some { s with remaining := rest }
      else if isNew s subID then
        some { s with
          remaining := rest
          answered := some (inputStreamConfig, subID)
          issued := subID :: s.issued }
      else none
  | _, _ => none

def record (s : System) : Option System :=
  s.answered.map (fun answer =>
    { s with
      fogflow := s.fogflow.putSubscription answer.2 ⟨answer.1, answer.2, ∅⟩
      tMgr := { s.tMgr with
        subID2FogFunc := s.tMgr.subID2FogFunc.set answer.2 (fID s.fogflow.intent) }
      answered := none })

def publish (s : System) : Option System :=
  if s.remaining = [] ∧ s.answered = none ∧ s.published = false then
    some { s with
      tMgr := { s.tMgr with
        fogFlows := s.tMgr.fogFlows.set (fID s.fogflow.intent) s.fogflow }
      published := true }
  else none

def receive (s : System) (notice : Notice) : Option System :=
  if notice.subID ∈ s.issued ∧ notice.serial ∉ s.received.map Notice.serial then
    some { s with received := s.received ++ [notice], waiting := s.waiting ++ [notice] }
  else none

-- the section under subID2FogFunc_lock
def lookUp (s : System) (serial : Nat) : Option System :=
  (Pool.take (fun notice => notice.serial == serial) s.waiting).map (fun call =>
    match s.tMgr.subID2FogFunc.get call.1.subID with
    | none => { s with waiting := call.2, dropped := s.dropped ++ [call.1] }
    | some funcName => { s with waiting := call.2, resolved := s.resolved ++ [(call.1, funcName)] })

-- the section under fogFlows_lock, where a flow that does not know the subscription does nothing
def orchestrate (marshal : GroupValue → String) (s : System) (serial : Nat) (choices : Choices)
    (selectWorker : Nat → List Point → String) : Option System :=
  (Pool.take (fun call => call.1.serial == serial) s.resolved).bind (fun call =>
    let notice := call.1.1
    match s.tMgr.fogFlows.get call.1.2 with
    | none => some { s with resolved := call.2, dropped := s.dropped ++ [notice] }
    | some fogflow =>
        (Master.step marshal fogflow ⟨notice.subID, notice.entityAction, notice.registeredEntity,
          choices, selectWorker⟩).map (fun next =>
          let known := (fogflow.subscriptions.get notice.subID).isSome
          { s with
            resolved := call.2
            tMgr := { s.tMgr with fogFlows := s.tMgr.fogFlows.set call.1.2 next }
            applied := if known then s.applied ++ [notice] else s.applied
            dropped := if known then s.dropped else s.dropped ++ [notice] }))

def step (marshal : GroupValue → String) (s : System) : Label → Option System
  | .subscribe subID => subscribe s subID
  | .record => record s
  | .publish => publish s
  | .receive notice => receive s notice
  | .lookUp serial => lookUp s serial
  | .orchestrate serial choices selectWorker => orchestrate marshal s serial choices selectWorker

-- the maps already hold what the next section of HandleContextAvailabilityUpdate reads
def Timely (s : System) : Label → Prop
  | .lookUp serial => ∀ notice ∈ s.waiting, notice.serial = serial →
      s.tMgr.subID2FogFunc.get notice.subID ≠ none
  | .orchestrate _ _ _ => s.published = true
  | _ => True

structure Consistent (s : System) : Prop where
  linked : ∀ subID ∈ s.issued,
    ((∃ inputStreamConfig, s.answered = some (inputStreamConfig, subID)) ∧
      s.tMgr.subID2FogFunc.get subID = none) ∨
    (s.tMgr.subID2FogFunc.get subID = some (fID s.fogflow.intent) ∧
      s.fogflow.subscriptions.get subID ≠ none)
  complete : s.published = true → s.answered = none ∧ s.remaining = []
  shared : s.published = true → ∃ fogflow, s.tMgr.fogFlows.get (fID s.fogflow.intent) =
    some fogflow ∧ ∀ subID, s.fogflow.subscriptions.get subID ≠ none →
      fogflow.subscriptions.get subID ≠ none
  strange : s.published = false → ∀ fogflow,
    s.tMgr.fogFlows.get (fID s.fogflow.intent) = some fogflow →
      ∀ subID ∈ s.issued, fogflow.subscriptions.get subID = none
  waiting_issued : ∀ notice ∈ s.waiting, notice.subID ∈ s.issued
  resolved_linked : ∀ call ∈ s.resolved, call.1.subID ∈ s.issued ∧
    call.2 = fID s.fogflow.intent ∧
    s.tMgr.subID2FogFunc.get call.1.subID = some (fID s.fogflow.intent)

theorem consistent_start (tMgr : TaskMgr) (taskIntent : TaskIntent) :
    Consistent (start tMgr taskIntent) := by
  constructor <;> simp [start]

theorem consistent_subscribe {s t : System} {subID : String} (h : Consistent s)
    (hs : subscribe s subID = some t) : Consistent t := by
  cases hans : s.answered with
  | some answer => simp [subscribe, hans] at hs
  | none =>
  cases hrem : s.remaining with
  | nil => simp [subscribe, hans, hrem] at hs
  | cons inputStreamConfig rest =>
    simp only [subscribe, hans, hrem] at hs
    have hunpub : s.published = false := by
      cases hp : s.published with
      | false => rfl
      | true => simpa [hrem] using (h.complete hp).2
    split_ifs at hs with hempty hnew
    · obtain rfl := Option.some.inj hs
      exact ⟨by simpa only [hans] using h.linked, by simp [hunpub], h.shared, h.strange,
        h.waiting_issued, h.resolved_linked⟩
    · obtain rfl := Option.some.inj hs
      simp only [isNew, Bool.and_eq_true, Bool.not_eq_true', List.all_eq_true, beq_iff_eq,
        Option.isNone_iff_eq_none] at hnew
      obtain ⟨⟨-, hfresh⟩, hflows⟩ := hnew
      refine ⟨?_, by simp [hunpub], by simp [hunpub], ?_, ?_, ?_⟩
      · intro k hk
        rcases List.mem_cons.mp hk with rfl | hk
        · exact Or.inl ⟨⟨inputStreamConfig, rfl⟩, hfresh⟩
        · refine Or.inr ((h.linked k hk).resolve_left ?_)
          rintro ⟨⟨c, hc⟩, -⟩
          simp [hans] at hc
      · intro _ fogflow hf k hk
        rcases List.mem_cons.mp hk with rfl | hk
        · exact hflows fogflow (GoMap.mem_values.mpr ⟨_, hf⟩)
        · exact h.strange hunpub fogflow hf k hk
      · exact fun notice hn => List.mem_cons_of_mem _ (h.waiting_issued notice hn)
      · intro call hc
        obtain ⟨hi, hrest⟩ := h.resolved_linked call hc
        exact ⟨List.mem_cons_of_mem _ hi, hrest⟩

theorem consistent_record {s t : System} (h : Consistent s) (hs : record s = some t) :
    Consistent t := by
  obtain ⟨⟨inputStreamConfig, subID⟩, hans, rfl⟩ := Option.map_eq_some_iff.mp hs
  have hunpub : s.published = false := by
    cases hp : s.published with
    | false => rfl
    | true => simpa [hans] using (h.complete hp).1
  have hget : ∀ k ∈ s.issued, (s.tMgr.subID2FogFunc.set subID (fID s.fogflow.intent)).get k =
      some (fID s.fogflow.intent) := by
    intro k hk
    rw [GoMap.get_set]
    split_ifs with hks
    · rfl
    · rcases h.linked k hk with ⟨⟨c, hc⟩, -⟩ | ⟨hl, -⟩
      · rw [hans] at hc
        exact absurd (Prod.mk.inj (Option.some.inj hc)).2.symm hks
      · exact hl
  refine ⟨?_, by simp [hunpub], by simp [hunpub], h.strange, h.waiting_issued, ?_⟩
  · intro k hk
    refine Or.inr ⟨hget k hk, ?_⟩
    simp only [FogFlow.putSubscription, GoMap.get_set]
    split_ifs with hks
    · simp
    · rcases h.linked k hk with ⟨⟨c, hc⟩, -⟩ | ⟨-, hl⟩
      · rw [hans] at hc
        exact absurd (Prod.mk.inj (Option.some.inj hc)).2.symm hks
      · exact hl
  · intro call hc
    obtain ⟨hi, hf, -⟩ := h.resolved_linked call hc
    exact ⟨hi, hf, hget _ hi⟩

theorem consistent_publish {s t : System} (h : Consistent s) (hs : publish s = some t) :
    Consistent t := by
  unfold publish at hs
  split_ifs at hs with hready
  obtain rfl := Option.some.inj hs
  refine ⟨h.linked, fun _ => ⟨hready.2.1, hready.1⟩, fun _ => ⟨s.fogflow, ?_, fun _ => id⟩,
    by simp, h.waiting_issued, h.resolved_linked⟩
  exact GoMap.get_set_self _ _ _

theorem consistent_receive {s t : System} {notice : Notice} (h : Consistent s)
    (hs : receive s notice = some t) : Consistent t := by
  unfold receive at hs
  split_ifs at hs with hguard
  obtain rfl := Option.some.inj hs
  refine ⟨h.linked, h.complete, h.shared, h.strange, ?_, h.resolved_linked⟩
  intro n hn
  rcases List.mem_append.mp hn with hn | hn
  · exact h.waiting_issued n hn
  · rw [List.mem_singleton.mp hn]
    exact hguard.1

theorem consistent_lookUp {s t : System} {serial : Nat} (h : Consistent s)
    (hs : lookUp s serial = some t) : Consistent t := by
  obtain ⟨⟨notice, waiting⟩, htake, rfl⟩ := Option.map_eq_some_iff.mp hs
  have hissued := h.waiting_issued notice (Pool.mem_of_take htake)
  have hrest : ∀ n ∈ waiting, n.subID ∈ s.issued :=
    fun n hn => h.waiting_issued n (Pool.mem_of_mem_rest htake hn)
  cases hget : s.tMgr.subID2FogFunc.get notice.subID with
  | none => exact ⟨h.linked, h.complete, h.shared, h.strange, hrest, h.resolved_linked⟩
  | some funcName =>
    refine ⟨h.linked, h.complete, h.shared, h.strange, hrest, ?_⟩
    intro call hc
    rcases List.mem_append.mp hc with hc | hc
    · exact h.resolved_linked call hc
    · obtain rfl := List.mem_singleton.mp hc
      rcases h.linked _ hissued with ⟨-, hnone⟩ | ⟨hl, -⟩
      · simp [hget] at hnone
      · rw [hget] at hl
        exact ⟨hissued, Option.some.inj hl, hget.trans hl⟩

variable {marshal : GroupValue → String} {choices : Choices}
  {selectWorker : Nat → List Point → String}

theorem consistent_orchestrate {s t : System} {serial : Nat} (h : Consistent s)
    (hs : orchestrate marshal s serial choices selectWorker = some t) : Consistent t := by
  obtain ⟨⟨⟨notice, funcName⟩, resolved⟩, htake, hs⟩ := Option.bind_eq_some_iff.mp hs
  have hrest : ∀ call ∈ resolved, call.1.subID ∈ s.issued ∧
      call.2 = fID s.fogflow.intent ∧
      s.tMgr.subID2FogFunc.get call.1.subID = some (fID s.fogflow.intent) :=
    fun call hc => h.resolved_linked call (Pool.mem_of_mem_rest htake hc)
  obtain ⟨-, hfunc, -⟩ := h.resolved_linked _ (Pool.mem_of_take htake)
  obtain rfl : funcName = fID s.fogflow.intent := hfunc
  cases hget : s.tMgr.fogFlows.get (fID s.fogflow.intent) with
  | none =>
    simp only [hget, Option.some.injEq] at hs
    subst hs
    exact ⟨h.linked, h.complete, h.shared, h.strange, h.waiting_issued, hrest⟩
  | some fogflow =>
    simp only [hget] at hs
    obtain ⟨next, hnext, rfl⟩ := Option.map_eq_some_iff.mp hs
    have hkeys := subscriptions_step hnext
    refine ⟨h.linked, h.complete, ?_, ?_, h.waiting_issued, hrest⟩
    · intro hp
      obtain ⟨g, hg, hsubs⟩ := h.shared hp
      obtain rfl : fogflow = g := Option.some.inj (hget.symm.trans hg)
      refine ⟨next, by simp, fun k hk => ?_⟩
      rw [ne_eq, hkeys k]
      exact hsubs k hk
    · intro hp g hg k hk
      obtain rfl : next = g := by simpa using hg
      rw [hkeys k]
      exact h.strange hp fogflow hget k hk

theorem consistent_step {s t : System} {label : Label} (h : Consistent s)
    (hs : step marshal s label = some t) : Consistent t := by
  cases label with
  | subscribe subID => exact consistent_subscribe h hs
  | record => exact consistent_record h hs
  | publish => exact consistent_publish h hs
  | receive notice => exact consistent_receive h hs
  | lookUp serial => exact consistent_lookUp h hs
  | orchestrate serial choices selectWorker => exact consistent_orchestrate h hs

theorem dropped_lookUp {s t : System} {serial : Nat} (hserial : (s.waiting.map Notice.serial).Nodup)
    (hs : lookUp s serial = some t) :
    t.dropped = [] ↔ s.dropped = [] ∧ Timely s (.lookUp serial) := by
  obtain ⟨⟨notice, waiting⟩, htake, rfl⟩ := Option.map_eq_some_iff.mp hs
  have hmem := Pool.mem_of_take htake
  have heq : notice.serial = serial := by simpa using Pool.take_sat htake
  have htimely : Timely s (.lookUp serial) ↔ s.tMgr.subID2FogFunc.get notice.subID ≠ none := by
    constructor
    · exact fun ht => ht notice hmem heq
    · intro hl n hn hns
      rwa [List.inj_on_of_nodup_map hserial hn hmem (hns.trans heq.symm)]
  rw [htimely]
  cases s.tMgr.subID2FogFunc.get notice.subID <;> simp

theorem dropped_orchestrate {s t : System} {serial : Nat} (h : Consistent s)
    (hs : orchestrate marshal s serial choices selectWorker = some t) :
    t.dropped = [] ↔ s.dropped = [] ∧ s.published = true := by
  obtain ⟨⟨⟨notice, funcName⟩, resolved⟩, htake, hs⟩ := Option.bind_eq_some_iff.mp hs
  obtain ⟨hissued, hfunc, hlink⟩ := h.resolved_linked _ (Pool.mem_of_take htake)
  obtain rfl : funcName = fID s.fogflow.intent := hfunc
  have hrecorded : s.fogflow.subscriptions.get notice.subID ≠ none := by
    rcases h.linked _ hissued with ⟨-, hnone⟩ | ⟨-, hsub⟩
    · simp [hlink] at hnone
    · exact hsub
  cases hget : s.tMgr.fogFlows.get (fID s.fogflow.intent) with
  | none =>
    simp only [hget, Option.some.injEq] at hs
    subst hs
    have hunpub : s.published ≠ true := by
      intro hp
      obtain ⟨g, hg, -⟩ := h.shared hp
      simp [hget] at hg
    simp [hunpub]
  | some fogflow =>
    simp only [hget] at hs
    obtain ⟨next, -, rfl⟩ := Option.map_eq_some_iff.mp hs
    cases hp : s.published with
    | true =>
      obtain ⟨g, hg, hsubs⟩ := h.shared hp
      obtain rfl : fogflow = g := Option.some.inj (hget.symm.trans hg)
      simp [Option.isSome_iff_ne_none.mpr (hsubs _ hrecorded)]
    | false => simp [h.strange hp fogflow hget _ hissued]

-- every notification received is at exactly one place
structure Accounted (s : System) : Prop where
  serials : (s.received.map Notice.serial).Nodup
  perm : s.received.Perm (s.waiting ++ s.resolved.map Prod.fst ++ s.applied ++ s.dropped)

theorem accounted_start (tMgr : TaskMgr) (taskIntent : TaskIntent) :
    Accounted (start tMgr taskIntent) := by
  constructor <;> simp [start]

theorem Accounted.of_eq {s t : System} (h : Accounted s) (hr : t.received = s.received)
    (hw : t.waiting = s.waiting) (hres : t.resolved = s.resolved) (ha : t.applied = s.applied)
    (hd : t.dropped = s.dropped) : Accounted t :=
  ⟨by rw [hr]; exact h.serials, by rw [hr, hw, hres, ha, hd]; exact h.perm⟩

theorem Accounted.waiting_nodup {s : System} (h : Accounted s) :
    (s.waiting.map Notice.serial).Nodup := by
  have hn := (h.perm.map Notice.serial).nodup_iff.mp h.serials
  simp only [List.append_assoc, List.map_append] at hn
  exact (List.nodup_append.mp hn).1

theorem accounted_receive {s t : System} {notice : Notice} (h : Accounted s)
    (hs : receive s notice = some t) : Accounted t := by
  unfold receive at hs
  split_ifs at hs with hguard
  obtain rfl := Option.some.inj hs
  constructor
  · simpa [List.nodup_append, h.serials] using fun n hn hs =>
      hguard.2 (List.mem_map.mpr ⟨n, hn, hs⟩)
  · refine (h.perm.append_right [notice]).trans ?_
    simp only [List.append_assoc]
    refine List.Perm.append_left _ ?_
    have hmove : (s.resolved.map Prod.fst ++ (s.applied ++ s.dropped) ++ [notice]).Perm
        ([notice] ++ (s.resolved.map Prod.fst ++ (s.applied ++ s.dropped))) :=
      List.perm_append_comm
    simpa only [List.append_assoc] using hmove

theorem accounted_lookUp {s t : System} {serial : Nat} (h : Accounted s)
    (hs : lookUp s serial = some t) : Accounted t := by
  obtain ⟨⟨notice, waiting⟩, htake, rfl⟩ := Option.map_eq_some_iff.mp hs
  have hperm : s.received.Perm
      (notice :: (waiting ++ (s.resolved.map Prod.fst ++ (s.applied ++ s.dropped)))) := by
    have := (Pool.take_perm htake).append_right
      (s.resolved.map Prod.fst ++ (s.applied ++ s.dropped))
    exact h.perm.trans (by simpa only [List.append_assoc, List.cons_append] using this)
  cases hget : s.tMgr.subID2FogFunc.get notice.subID with
  | none =>
    refine ⟨h.serials, hperm.trans ?_⟩
    simpa only [List.append_assoc] using
      (List.perm_append_singleton notice
        (waiting ++ (s.resolved.map Prod.fst ++ (s.applied ++ s.dropped)))).symm
  | some funcName =>
    refine ⟨h.serials, hperm.trans ?_⟩
    have hmove : (notice :: (waiting ++ s.resolved.map Prod.fst ++ (s.applied ++ s.dropped))).Perm
        (waiting ++ s.resolved.map Prod.fst ++ notice :: (s.applied ++ s.dropped)) :=
      List.perm_middle.symm
    simpa only [List.map_append, List.map_cons, List.map_nil, List.append_assoc,
      List.cons_append, List.nil_append] using hmove

theorem accounted_orchestrate {s t : System} {serial : Nat} (h : Accounted s)
    (hs : orchestrate marshal s serial choices selectWorker = some t) : Accounted t := by
  obtain ⟨⟨⟨notice, funcName⟩, resolved⟩, htake, hs⟩ := Option.bind_eq_some_iff.mp hs
  have hperm : s.received.Perm
      (notice :: (s.waiting ++ (resolved.map Prod.fst ++ (s.applied ++ s.dropped)))) := by
    have h1 := ((Pool.take_perm htake).map Prod.fst).append_left s.waiting
    have h2 := h1.append_right (s.applied ++ s.dropped)
    refine (h.perm.trans (by simpa only [List.append_assoc] using h2)).trans ?_
    simpa only [List.map_cons, List.append_assoc, List.cons_append] using List.perm_middle
  have happlied : s.received.Perm
      (s.waiting ++ resolved.map Prod.fst ++ (s.applied ++ [notice]) ++ s.dropped) := by
    refine hperm.trans ?_
    have hmove : (notice :: (s.waiting ++ resolved.map Prod.fst ++ s.applied ++ s.dropped)).Perm
        (s.waiting ++ resolved.map Prod.fst ++ s.applied ++ notice :: s.dropped) :=
      List.perm_middle.symm
    simpa only [List.append_assoc, List.cons_append, List.nil_append] using hmove
  have hdropped : s.received.Perm
      (s.waiting ++ resolved.map Prod.fst ++ s.applied ++ (s.dropped ++ [notice])) := by
    refine hperm.trans ?_
    simpa only [List.append_assoc] using
      (List.perm_append_singleton notice
        (s.waiting ++ (resolved.map Prod.fst ++ (s.applied ++ s.dropped)))).symm
  cases hget : s.tMgr.fogFlows.get funcName with
  | none =>
    simp only [hget, Option.some.injEq] at hs
    subst hs
    exact ⟨h.serials, hdropped⟩
  | some fogflow =>
    simp only [hget] at hs
    obtain ⟨next, -, rfl⟩ := Option.map_eq_some_iff.mp hs
    cases hk : (fogflow.subscriptions.get notice.subID).isSome with
    | true => exact ⟨h.serials, by simpa [hk] using happlied⟩
    | false => exact ⟨h.serials, by simpa [hk] using hdropped⟩

-- the steps of the intent handler itself leave the notifications alone
theorem notices_subscribe {s t : System} {subID : String} (hs : subscribe s subID = some t) :
    t.received = s.received ∧ t.waiting = s.waiting ∧ t.resolved = s.resolved ∧
      t.applied = s.applied ∧ t.dropped = s.dropped := by
  unfold subscribe at hs
  split at hs
  · split_ifs at hs <;> obtain rfl := Option.some.inj hs <;> simp
  · cases hs

theorem notices_record {s t : System} (hs : record s = some t) :
    t.received = s.received ∧ t.waiting = s.waiting ∧ t.resolved = s.resolved ∧
      t.applied = s.applied ∧ t.dropped = s.dropped := by
  obtain ⟨answer, -, rfl⟩ := Option.map_eq_some_iff.mp hs
  simp

theorem notices_publish {s t : System} (hs : publish s = some t) :
    t.received = s.received ∧ t.waiting = s.waiting ∧ t.resolved = s.resolved ∧
      t.applied = s.applied ∧ t.dropped = s.dropped := by
  unfold publish at hs
  split_ifs at hs
  obtain rfl := Option.some.inj hs
  simp

theorem accounted_step {s t : System} {label : Label} (h : Accounted s)
    (hs : step marshal s label = some t) : Accounted t := by
  cases label with
  | subscribe subID =>
    obtain ⟨hr, hw, hres, ha, hd⟩ := notices_subscribe hs
    exact h.of_eq hr hw hres ha hd
  | record =>
    obtain ⟨hr, hw, hres, ha, hd⟩ := notices_record hs
    exact h.of_eq hr hw hres ha hd
  | publish =>
    obtain ⟨hr, hw, hres, ha, hd⟩ := notices_publish hs
    exact h.of_eq hr hw hres ha hd
  | receive notice => exact accounted_receive h hs
  | lookUp serial => exact accounted_lookUp h hs
  | orchestrate serial choices selectWorker => exact accounted_orchestrate h hs

theorem dropped_step {s t : System} {label : Label} (h : Consistent s) (ha : Accounted s)
    (hs : step marshal s label = some t) :
    t.dropped = [] ↔ s.dropped = [] ∧ Timely s label := by
  cases label with
  | subscribe subID => simp [Timely, (notices_subscribe hs).2.2.2.2]
  | record => simp [Timely, (notices_record hs).2.2.2.2]
  | publish => simp [Timely, (notices_publish hs).2.2.2.2]
  | receive notice =>
    simp only [step, receive] at hs
    split_ifs at hs
    obtain rfl := Option.some.inj hs
    simp [Timely]
  | lookUp serial => exact dropped_lookUp ha.waiting_nodup hs
  | orchestrate serial choices selectWorker => exact dropped_orchestrate h hs

theorem dropped_iff_meets {tMgr : TaskMgr} {taskIntent : TaskIntent} {labels : List Label}
    {s : System} (hrun : exec (step marshal) (start tMgr taskIntent) labels = some s) :
    s.dropped = [] ↔ Meets (step marshal) Timely (start tMgr taskIntent) labels := by
  have key : (s.dropped = [] ↔ Meets (step marshal) Timely (start tMgr taskIntent) labels) ∧
      Consistent s ∧ Accounted s := by
    refine exec_induction (motive := fun ls s =>
      (s.dropped = [] ↔ Meets (step marshal) Timely (start tMgr taskIntent) ls) ∧
        Consistent s ∧ Accounted s) hrun
      ⟨?_, consistent_start tMgr taskIntent, accounted_start tMgr taskIntent⟩ ?_
    · simp [start, Meets]
    · intro ls label r t _ hr ⟨ih, hcon, hacc⟩ hs
      refine ⟨?_, consistent_step hcon hs, accounted_step hacc hs⟩
      rw [dropped_step hcon hacc hs, ih, meets_concat hr]
  exact key.1

theorem accounted_run {tMgr : TaskMgr} {taskIntent : TaskIntent} {labels : List Label}
    {s : System} (hrun : exec (step marshal) (start tMgr taskIntent) labels = some s) :
    Accounted s :=
  exec_invariant hrun (accounted_start tMgr taskIntent) (fun _ _ _ h hs => accounted_step h hs)

theorem all_applied_iff {tMgr : TaskMgr} {taskIntent : TaskIntent} {labels : List Label}
    {s : System} (hrun : exec (step marshal) (start tMgr taskIntent) labels = some s)
    (hdone : s.waiting = [] ∧ s.resolved = []) :
    (∀ notice ∈ s.received, notice ∈ s.applied) ↔
      Meets (step marshal) Timely (start tMgr taskIntent) labels := by
  rw [← dropped_iff_meets hrun]
  have hacc := accounted_run hrun
  have hperm : s.received.Perm (s.applied ++ s.dropped) := by
    simpa [hdone.1, hdone.2] using hacc.perm
  constructor
  · intro hall
    by_contra hne
    obtain ⟨notice, hn⟩ := List.exists_mem_of_ne_nil _ hne
    have happlied := hall notice (hperm.mem_iff.mpr (List.mem_append_right _ hn))
    have hnd := (hperm.map Notice.serial).nodup_iff.mp hacc.serials
    rw [List.map_append, List.nodup_append] at hnd
    exact hnd.2.2 _ (List.mem_map_of_mem happlied) _ (List.mem_map_of_mem hn) rfl
  · intro hnil notice hn
    simpa [hnil] using hperm.mem_iff.mp hn

def AllApplied (marshal : GroupValue → String) : Prop :=
  ∀ tMgr taskIntent labels s, exec (step marshal) (start tMgr taskIntent) labels = some s →
    s.published = true → s.waiting = [] → s.resolved = [] →
    ∀ notice ∈ s.received, notice ∈ s.applied

def carArrives : Notice := ⟨0, "sub1", .create, exampleEntity "car1" "Car"⟩

-- discovery reports the registered car before its answer to the subscription is recorded
theorem notice_dropped : ¬ AllApplied (fun _ => "") := by
  intro h
  have hrun : ∃ s, exec (step (fun _ => "")) (start ⟨∅, ∅⟩
      (exampleIntent [exampleStream "Car" "EntityID"]))
      [.subscribe "sub1", .receive carArrives, .lookUp 0, .record, .publish] = some s ∧
      s.published = true ∧ s.waiting = [] ∧ s.resolved = [] ∧ s.received = [carArrives] ∧
      s.applied = [] := ⟨_, rfl, rfl, rfl, rfl, rfl, rfl⟩
  obtain ⟨s, hs, hp, hw, hr, hrec, happ⟩ := hrun
  have hmem := h _ _ _ s hs hp hw hr carArrives (by simp [hrec])
  simp [happ] at hmem

def timely : List Label :=
  [.subscribe "sub1", .record, .subscribe "sub2", .record, .publish, .receive carArrives,
    .lookUp 0, .orchestrate 0 exampleChoices (fun _ _ => "worker")]

theorem timely_notice_applied :
    ∃ s, exec (step (fun _ => "")) (start ⟨∅, ∅⟩
        (exampleIntent [exampleStream "Car" "EntityID", exampleStream "Road" "ALL"])) timely =
          some s ∧ s.received = [carArrives] ∧
      Meets (step (fun _ => "")) Timely (start ⟨∅, ∅⟩
        (exampleIntent [exampleStream "Car" "EntityID", exampleStream "Road" "ALL"])) timely := by
  have hrun : ∃ s, exec (step (fun _ => "")) (start ⟨∅, ∅⟩
      (exampleIntent [exampleStream "Car" "EntityID", exampleStream "Road" "ALL"])) timely =
        some s ∧ s.waiting = [] ∧ s.resolved = [] ∧ s.received = [carArrives] ∧
      s.applied = [carArrives] := ⟨_, rfl, rfl, rfl, rfl, rfl⟩
  obtain ⟨s, hs, hw, hr, hrec, happ⟩ := hrun
  exact ⟨s, hs, hrec, (all_applied_iff hs ⟨hw, hr⟩).mp (by simp [hrec, happ])⟩

end IntentHandling

end FogFlow.Master
