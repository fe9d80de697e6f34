import FogFlow.Library.Execution
import FogFlow.Library.Pool

namespace FogFlow.ScheduledWrite

open Execution

variable {M C F : Type}

-- a routine that writes a map to a file, cut at its accesses to the flag and to the two locks
inductive Stage (F : Type) where
  | testFlag
  | lockFile
  | setFlag
  | wait
  | lockMap
  | snapshot
  | write (content : F)
  | clearFlag
  | unlockFile
  | unlockMap
deriving DecidableEq, Repr

structure Disk (M F : Type) where
  memory : M
  file : F
  scheduled : Bool
  fileLocked : Bool
  readers : Nat
  routines : List (Stage F)

def Disk.init (memory : M) (file : F) : Disk M F := ⟨memory, file, false, false, 0, []⟩

inductive Label (C : Type) where
  | change (c : C)
  | run (i : Nat)

-- a stage that waits for a lock has no step while the lock is held
def advance (marshal : M → F) (s : Disk M F) : Stage F → Option (Disk M F × List (Stage F))
  | .testFlag => some (s, if s.scheduled then [] else [.lockFile])
  | .lockFile => if s.fileLocked then none else some ({ s with fileLocked := true }, [.setFlag])
  | .setFlag => some ({ s with scheduled := true }, [.wait])
  | .wait => some (s, [.lockMap])
  | .lockMap => some ({ s with readers := s.readers + 1 }, [.snapshot])
  | .snapshot => some (s, [.write (marshal s.memory)])
  | .write content => some ({ s with file := content }, [.clearFlag])
  | .clearFlag => some ({ s with scheduled := false }, [.unlockFile])
  | .unlockFile => some ({ s with fileLocked := false }, [.unlockMap])
  | .unlockMap => some ({ s with readers := s.readers - 1 }, [])

def Disk.changed (apply : C → M → M) (s : Disk M F) (c : C) : Disk M F :=
  { s with memory := apply c s.memory, routines := s.routines ++ [.testFlag] }

def step (apply : C → M → M) (marshal : M → F) (s : Disk M F) : Label C → Option (Disk M F)
  | .change c => if s.readers = 0 then some (s.changed apply c) else none
  | .run i => (s.routines[i]?).bind (fun stage => (advance marshal s stage).map (fun next =>
      { next.1 with routines := Pool.replace s.routines i next.2 }))

def Stage.readsMap : Stage F → Bool
  | .snapshot | .write _ | .clearFlag | .unlockFile | .unlockMap => true
  | _ => false

def Stage.scheduled : Stage F → Bool
  | .wait | .lockMap | .snapshot | .write _ | .clearFlag => true
  | _ => false

def Stage.willWrite : Stage F → Bool
  | .testFlag | .lockFile | .setFlag | .wait | .lockMap | .snapshot | .write _ => true
  | _ => false

structure Consistent (marshal : M → F) (s : Disk M F) : Prop where
  readers : s.routines.countP Stage.readsMap = s.readers
  flag : s.scheduled = true → ∃ stage ∈ s.routines, stage.scheduled = true
  snapshot : ∀ content, .write content ∈ s.routines → content = marshal s.memory
  written : .clearFlag ∈ s.routines → s.file = marshal s.memory

def Covered (marshal : M → F) (s : Disk M F) : Prop :=
  s.file = marshal s.memory ∨ ∃ stage ∈ s.routines, stage.willWrite = true

variable {apply : C → M → M} {marshal : M → F} {s t : Disk M F}

theorem step_change {c : C} (h : step apply marshal s (.change c) = some t) :
    s.readers = 0 ∧ t = s.changed apply c := by
  simp only [step] at h
  split_ifs at h with hreaders
  exact ⟨hreaders, (Option.some.inj h).symm⟩

theorem step_run {i : Nat} (h : step apply marshal s (.run i) = some t) :
    ∃ stage next, s.routines[i]? = some stage ∧ advance marshal s stage = some next ∧
      t = { next.1 with routines := Pool.replace s.routines i next.2 } := by
  obtain ⟨stage, hstage, h⟩ := Option.bind_eq_some_iff.mp h
  obtain ⟨next, hnext, rfl⟩ := Option.map_eq_some_iff.mp h
  exact ⟨stage, next, hstage, hnext, rfl⟩

theorem consistent_init (memory : M) (file : F) : Consistent marshal (Disk.init memory file) :=
  ⟨rfl, by simp [Disk.init], by simp [Disk.init], by simp [Disk.init]⟩

theorem not_reading (h : Consistent marshal s) (hreaders : s.readers = 0) {stage : Stage F}
    (hmem : stage ∈ s.routines) : stage.readsMap = false := by
  have hnone := h.readers.trans hreaders
  rw [List.countP_eq_zero] at hnone
  simpa using hnone stage hmem

-- a change waits for the readers of the map, so no snapshot taken is overtaken by it
theorem consistent_change (h : Consistent marshal s) (hreaders : s.readers = 0) (c : C) :
    Consistent marshal (s.changed apply c) := by
  constructor
  · simpa [Disk.changed, Stage.readsMap] using h.readers
  · intro hflag
    obtain ⟨stage, hmem, hscheduled⟩ := h.flag hflag
    exact ⟨stage, List.mem_append_left _ hmem, hscheduled⟩
  · intro content hmem
    have hold : Stage.write content ∈ s.routines := by simpa [Disk.changed] using hmem
    simpa [Stage.readsMap] using not_reading h hreaders hold
  · intro hmem
    have hold : Stage.clearFlag ∈ s.routines := by simpa [Disk.changed] using hmem
    simpa [Stage.readsMap] using not_reading h hreaders hold

section Advance

variable {stage : Stage F} {next : Disk M F × List (Stage F)}

theorem advance_lockFile (h : advance marshal s .lockFile = some next) :
    next = ({ s with fileLocked := true }, [.setFlag]) := by
  simp only [advance] at h
  split_ifs at h
  exact (Option.some.inj h).symm

theorem memory_advance (h : advance marshal s stage = some next) :
    next.1.memory = s.memory := by
  cases stage with
  | lockFile => rw [advance_lockFile h]
  | _ => rw [← Option.some.inj h]

theorem file_advance (h : advance marshal s stage = some next) :
    next.1.file = s.file ∨ stage = .write next.1.file := by
  cases stage with
  | lockFile => exact .inl (by rw [advance_lockFile h])
  | write content => exact .inr (by rw [← Option.some.inj h])
  | _ => exact .inl (by rw [← Option.some.inj h])

theorem scheduled_advance (h : advance marshal s stage = some next)
    (hflag : next.1.scheduled = true) :
    (∃ stage' ∈ next.2, stage'.scheduled = true) ∨
      s.scheduled = true ∧ stage.scheduled = false := by
  cases stage with
  | lockFile =>
    rw [advance_lockFile h] at hflag
    exact .inr ⟨hflag, rfl⟩
  | _ =>
    obtain rfl := Option.some.inj h
    simp_all [Stage.scheduled]

theorem write_of_advance (h : advance marshal s stage = some next) {content : F}
    (hmem : .write content ∈ next.2) : content = marshal s.memory := by
  cases stage with
  | lockFile => simp [advance_lockFile h] at hmem
  | testFlag =>
    obtain rfl := Option.some.inj h
    cases hflag : s.scheduled <;> simp [hflag] at hmem
  | snapshot =>
    obtain rfl := Option.some.inj h
    simpa using hmem
  | _ =>
    obtain rfl := Option.some.inj h
    simp at hmem

theorem clearFlag_of_advance (h : advance marshal s stage = some next)
    (hmem : .clearFlag ∈ next.2) : stage = .write next.1.file := by
  cases stage with
  | lockFile => simp [advance_lockFile h] at hmem
  | testFlag =>
    obtain rfl := Option.some.inj h
    cases hflag : s.scheduled <;> simp [hflag] at hmem
  | _ =>
    obtain rfl := Option.some.inj h
    simp_all

theorem readers_advance (h : advance marshal s stage = some next)
    (hreaders : stage.readsMap = true → 0 < s.readers) :
    next.1.readers + (if stage.readsMap then 1 else 0) =
      s.readers + next.2.countP Stage.readsMap := by
  cases stage with
  | lockFile => simp [advance_lockFile h, Stage.readsMap]
  | testFlag =>
    obtain rfl := Option.some.inj h
    cases s.scheduled <;> simp [Stage.readsMap]
  | unlockMap =>
    obtain rfl := Option.some.inj h
    have hpos := hreaders rfl
    simp only [Stage.readsMap, if_true, List.countP_nil]
    omega
  | _ =>
    obtain rfl := Option.some.inj h
    simp [Stage.readsMap]

-- a routine that finds the flag set leaves the write to another one
theorem willWrite_advance (h : advance marshal s stage = some next)
    (hwrite : stage.willWrite = true) :
    (∃ stage' ∈ next.2, stage'.willWrite = true) ∨ stage = .write next.1.file ∨
      stage = .testFlag ∧ s.scheduled = true := by
  cases stage with
  | lockFile => exact .inl ⟨.setFlag, by simp [advance_lockFile h], rfl⟩
  | testFlag =>
    obtain rfl := Option.some.inj h
    cases hflag : s.scheduled with
    | true => exact .inr (.inr ⟨rfl, rfl⟩)
    | false => exact .inl ⟨.lockFile, by simp, rfl⟩
  | _ =>
    obtain rfl := Option.some.inj h
    simp_all [Stage.willWrite]

end Advance

theorem consistent_run (h : Consistent marshal s) {i : Nat} {stage : Stage F}
    {next : Disk M F × List (Stage F)} (hstage : s.routines[i]? = some stage)
    (hnext : advance marshal s stage = some next) :
    Consistent marshal { next.1 with routines := Pool.replace s.routines i next.2 } := by
  have hmem : stage ∈ s.routines := List.mem_of_getElem? hstage
  constructor
  · have hcount := Pool.countP_replace (p := Stage.readsMap) hstage next.2
    have hreaders := readers_advance hnext (fun hread => by
      rw [← h.readers]
      exact List.countP_pos_iff.mpr ⟨stage, hmem, hread⟩)
    rw [h.readers] at hcount
    dsimp only
    omega
  · intro hflag
    rcases scheduled_advance hnext hflag with ⟨stage', hnew, hscheduled⟩ | ⟨hold, hnot⟩
    · exact ⟨stage', Pool.mem_replace_of_next hnew, hscheduled⟩
    · obtain ⟨stage', hother, hscheduled⟩ := h.flag hold
      rcases Pool.mem_replace_of_mem hstage hother with rfl | hkept
      · rw [hnot] at hscheduled
        cases hscheduled
      · exact ⟨stage', hkept, hscheduled⟩
  · intro content hwrite
    rw [show marshal next.1.memory = marshal s.memory by rw [memory_advance hnext]]
    rcases Pool.mem_replace hwrite with hold | hnew
    · exact h.snapshot content hold
    · exact write_of_advance hnext hnew
  · intro hclear
    dsimp only
    rw [memory_advance hnext]
    rcases Pool.mem_replace hclear with hold | hnew
    · rcases file_advance hnext with hsame | hwritten
      · rw [hsame]
        exact h.written hold
      · exact h.snapshot _ (hwritten ▸ hmem)
    · exact h.snapshot _ (clearFlag_of_advance hnext hnew ▸ hmem)

-- the routine that holds the flag has its snapshot still before it, or has written the present map
theorem covered_of_scheduled (h : Consistent marshal s) (hflag : s.scheduled = true) :
    s.file = marshal s.memory ∨
      ∃ stage ∈ s.routines, stage.willWrite = true ∧ stage ≠ .testFlag := by
  obtain ⟨stage, hmem, hscheduled⟩ := h.flag hflag
  cases stage with
  | clearFlag => exact .inl (h.written hmem)
  | testFlag | lockFile | setFlag | unlockFile | unlockMap => cases hscheduled
  | wait | lockMap | snapshot | write content => exact .inr ⟨_, hmem, rfl, by simp⟩

theorem covered_run (h : Consistent marshal s) (hcovered : Covered marshal s) {i : Nat}
    {stage : Stage F} {next : Disk M F × List (Stage F)} (hstage : s.routines[i]? = some stage)
    (hnext : advance marshal s stage = some next) :
    Covered marshal { next.1 with routines := Pool.replace s.routines i next.2 } := by
  have hmem : stage ∈ s.routines := List.mem_of_getElem? hstage
  have hfile (hw : stage = .write next.1.file) : next.1.file = marshal next.1.memory := by
    rw [memory_advance hnext]
    exact h.snapshot _ (hw ▸ hmem)
  have hkeep (hsame : s.file = marshal s.memory) : next.1.file = marshal next.1.memory := by
    rcases file_advance hnext with hold | hw
    · rw [hold, hsame, memory_advance hnext]
    · exact hfile hw
  rcases hcovered with hsame | ⟨stage', hother, hwrite⟩
  · exact .inl (hkeep hsame)
  rcases Pool.mem_replace_of_mem hstage hother with rfl | hkept
  · rcases willWrite_advance hnext hwrite with ⟨new, hnew, hwill⟩ | hw | ⟨htest, hflag⟩
    · exact .inr ⟨new, Pool.mem_replace_of_next hnew, hwill⟩
    · exact .inl (hfile hw)
    · rcases covered_of_scheduled h hflag with hsame | ⟨other, hmem', hwill, hne⟩
      · exact .inl (hkeep hsame)
      · rcases Pool.mem_replace_of_mem hstage hmem' with rfl | hkept
        · exact absurd htest hne
        · exact .inr ⟨other, hkept, hwill⟩
  · exact .inr ⟨stage', hkept, hwrite⟩

theorem covered_change (s : Disk M F) (c : C) : Covered marshal (s.changed apply c) :=
  .inr ⟨.testFlag, by simp [Disk.changed], rfl⟩

theorem consistent_step (h : Consistent marshal s) {label : Label C}
    (hs : step apply marshal s label = some t) : Consistent marshal t := by
  cases label with
  | change c =>
    obtain ⟨hreaders, rfl⟩ := step_change hs
    exact consistent_change h hreaders c
  | run i =>
    obtain ⟨stage, next, hstage, hnext, rfl⟩ := step_run hs
    exact consistent_run h hstage hnext

def Label.isChange : Label C → Bool
  | .change _ => true
  | .run _ => false

theorem covered_step (h : Consistent marshal s) {label : Label C}
    (hcovered : label.isChange = true ∨ Covered marshal s)
    (hs : step apply marshal s label = some t) : Covered marshal t := by
  cases label with
  | change c =>
    obtain ⟨-, rfl⟩ := step_change hs
    exact covered_change s c
  | run i =>
    obtain ⟨stage, next, hstage, hnext, rfl⟩ := step_run hs
    exact covered_run h (hcovered.resolve_left (by simp [Label.isChange])) hstage hnext

def changesOf (labels : List (Label C)) : List C :=
  labels.filterMap (fun label => match label with
    | .change c => some c
    | .run _ => none)

theorem changesOf_append (labels labels' : List (Label C)) :
    changesOf (labels ++ labels') = changesOf labels ++ changesOf labels' :=
  List.filterMap_append

theorem memory_step {label : Label C} (hs : step apply marshal s label = some t) :
    t.memory = (changesOf [label]).foldl (fun m c => apply c m) s.memory := by
  cases label with
  | change c =>
    obtain ⟨-, rfl⟩ := step_change hs
    rfl
  | run i =>
    obtain ⟨stage, next, -, hnext, rfl⟩ := step_run hs
    exact memory_advance hnext

theorem memory_exec {labels : List (Label C)} {m : M} {file : F}
    (hrun : exec (step apply marshal) (.init m file) labels = some s) :
    s.memory = (changesOf labels).foldl (fun m c => apply c m) m := by
  refine exec_induction (motive := fun labels s =>
    s.memory = (changesOf labels).foldl (fun m c => apply c m) m) hrun rfl ?_
  intro js i r t _ _ hr ht
  rw [memory_step ht, hr, changesOf_append, List.foldl_append]

-- once a change was made or the file agreed from the start, it agrees when nobody is writing
theorem file_of_returned {labels : List (Label C)} {m : M} {file : F}
    (hrun : exec (step apply marshal) (.init m file) labels = some s) (hdone : s.routines = [])
    (hfirst : file = marshal m ∨ changesOf labels ≠ []) : s.file = marshal s.memory := by
  have key : Consistent marshal s ∧
      (file = marshal m ∨ changesOf labels ≠ [] → Covered marshal s) := by
    refine exec_induction (motive := fun labels s => Consistent marshal s ∧
      (file = marshal m ∨ changesOf labels ≠ [] → Covered marshal s)) hrun ?_ ?_
    · exact ⟨consistent_init m file, fun h => .inl (h.resolve_right (fun hne => hne rfl))⟩
    · rintro js i r t - - ⟨hr, hcovered⟩ ht
      refine ⟨consistent_step hr ht, fun h => covered_step hr ?_ ht⟩
      cases i with
      | change c => exact .inl rfl
      | run i =>
        refine .inr (hcovered (h.imp_right (fun hne => ?_)))
        simpa [changesOf] using hne
  rcases key.2 hfirst with hsame | ⟨stage, hmem, -⟩
  · exact hsame
  · simp [hdone] at hmem

end FogFlow.ScheduledWrite
