import FogFlow.Library.ScheduledWrite

namespace FogFlow.Recovery

open Execution ScheduledWrite
open scoped List

variable {M M' C F F' : Type}

-- a program that keeps a map in memory and a copy of it in a file: what it does to the map, what it
-- writes, what it reads when it starts, and what a write cut short leaves behind
structure Program (M C F : Type) where
  apply : C → M → M
  marshal : M → F
  restore : F → M
  broken : F

inductive Label (C : Type) where
  | work (label : ScheduledWrite.Label C)
  | restart (torn : Bool)

def isWrite : Stage F → Bool
  | .write _ => true
  | _ => false

-- a process that exits takes its routines and the map with it
def step (p : Program M C F) (s : Disk M F) : Label C → Option (Disk M F)
  | .work label => ScheduledWrite.step p.apply p.marshal s label
  | .restart false => some (.init (p.restore s.file) s.file)
  | .restart true =>
      if s.routines.any isWrite then some (.init (p.restore p.broken) p.broken) else none

def Program.start (p : Program M C F) : Disk M F := .init (p.restore p.broken) p.broken

def changesOf (labels : List (Label C)) : List C :=
  labels.filterMap (fun label => match label with
    | .work (.change c) => some c
    | _ => none)

section Steps

variable {p : Program M C F} {s t : Disk M F}

theorem step_change {c : C} (h : step p s (.work (.change c)) = some t) :
    t = s.changed p.apply c := by
  have hwork : ScheduledWrite.step p.apply p.marshal s (.change c) = some t := h
  exact (ScheduledWrite.step_change hwork).2

theorem step_run {i : Nat} (h : step p s (.work (.run i)) = some t) :
    ∃ stage next, s.routines[i]? = some stage ∧ advance p.marshal s stage = some next ∧
      t = { next.1 with routines := Pool.replace s.routines i next.2 } := by
  have hwork : ScheduledWrite.step p.apply p.marshal s (.run i) = some t := h
  exact ScheduledWrite.step_run hwork

theorem step_restart {torn : Bool} (h : step p s (.restart torn) = some t) :
    ∃ content, t = .init (p.restore content) content ∧
      (content = s.file ∨ torn = true ∧ content = p.broken) := by
  cases torn with
  | false => exact ⟨s.file, (Option.some.inj h).symm, .inl rfl⟩
  | true =>
    simp only [step] at h
    split_ifs at h
    exact ⟨p.broken, (Option.some.inj h).symm, .inr ⟨rfl, rfl⟩⟩

end Steps

def mapStage (g : F → F') : Stage F → Stage F'
  | .testFlag => .testFlag
  | .lockFile => .lockFile
  | .setFlag => .setFlag
  | .wait => .wait
  | .lockMap => .lockMap
  | .snapshot => .snapshot
  | .write content => .write (g content)
  | .clearFlag => .clearFlag
  | .unlockFile => .unlockFile
  | .unlockMap => .unlockMap

def mapDisk (f : M → M') (g : F → F') (s : Disk M F) : Disk M' F' :=
  ⟨f s.memory, g s.file, s.scheduled, s.fileLocked, s.readers, s.routines.map (mapStage g)⟩

-- one program tells less than the other and does the same
structure Image (p : Program M C F) (p' : Program M' C F') (f : M → M') (g : F → F') : Prop where
  apply : ∀ c m, f (p.apply c m) = p'.apply c (f m)
  marshal : ∀ m, g (p.marshal m) = p'.marshal (f m)
  restore : ∀ content, f (p.restore content) = p'.restore (g content)
  broken : g p.broken = p'.broken

section Image

variable {p : Program M C F} {p' : Program M' C F'} {f : M → M'} {g : F → F'}

theorem map_replace {α β : Type} (h : α → β) (pool : List α) (i : Nat) (next : List α) :
    (Pool.replace pool i next).map h = Pool.replace (pool.map h) i (next.map h) := by
  simp [Pool.replace, List.map_take, List.map_drop]

theorem isWrite_mapStage (stage : Stage F) : isWrite (mapStage g stage) = isWrite stage := by
  cases stage <;> rfl

theorem advance_mapDisk (h : Image p p' f g) (s : Disk M F) (stage : Stage F) :
    advance p'.marshal (mapDisk f g s) (mapStage g stage) =
      (advance p.marshal s stage).map (fun next =>
        (mapDisk f g next.1, next.2.map (mapStage g))) := by
  cases stage with
  | testFlag => cases hflag : s.scheduled <;> simp [advance, mapDisk, mapStage, hflag]
  | lockFile => cases hlock : s.fileLocked <;> simp [advance, mapDisk, mapStage, hlock]
  | snapshot => simp [advance, mapDisk, mapStage, h.marshal]
  | _ => simp [advance, mapDisk, mapStage]

theorem work_mapDisk (h : Image p p' f g) (s : Disk M F) (label : ScheduledWrite.Label C) :
    (ScheduledWrite.step p.apply p.marshal s label).map (mapDisk f g) =
      ScheduledWrite.step p'.apply p'.marshal (mapDisk f g s) label := by
  cases label with
  | change c =>
    have hreaders : (mapDisk f g s).readers = s.readers := rfl
    simp only [ScheduledWrite.step, hreaders]
    split_ifs
    · simp [mapDisk, Disk.changed, mapStage, h.apply]
    · rfl
  | run i =>
    simp only [ScheduledWrite.step]
    rw [show (mapDisk f g s).routines[i]? = (s.routines[i]?).map (mapStage g) by simp [mapDisk]]
    cases s.routines[i]? with
    | none => rfl
    | some stage =>
      simp only [Option.bind_some, Option.map_some]
      rw [advance_mapDisk h, Option.map_map, Option.map_map]
      refine Option.map_congr (fun next _ => ?_)
      simp [mapDisk, map_replace]

theorem step_mapDisk (h : Image p p' f g) (s : Disk M F) (label : Label C) :
    (step p s label).map (mapDisk f g) = step p' (mapDisk f g s) label := by
  have hinit (content : F) : mapDisk f g (.init (p.restore content) content) =
      .init (p'.restore (g content)) (g content) := by
    simp [mapDisk, Disk.init, h.restore]
  cases label with
  | work label => exact work_mapDisk h s label
  | restart torn =>
    cases torn with
    | false => exact congrArg some (hinit s.file)
    | true =>
      have hany : (mapDisk f g s).routines.any isWrite = s.routines.any isWrite := by
        simp [mapDisk, List.any_map, Function.comp_def, isWrite_mapStage]
      simp only [step, hany]
      split_ifs
      · rw [Option.map_some, hinit, h.broken]
      · rfl

theorem start_mapDisk (h : Image p p' f g) : mapDisk f g p.start = p'.start := by
  simp [Program.start, mapDisk, Disk.init, h.restore, h.broken]

end Image

-- the program that keeps the changes themselves, and so says which of them are left
def journal (C : Type) : Program (List C) C (List C) where
  apply c log := log ++ [c]
  marshal log := log
  restore log := log
  broken := []

def Program.withLog (p : Program M C F) : Program (M × List C) C (F × List C) where
  apply c m := (p.apply c m.1, m.2 ++ [c])
  marshal m := (p.marshal m.1, m.2)
  restore content := (p.restore content.1, content.2)
  broken := (p.broken, [])

theorem image_fst (p : Program M C F) : Image p.withLog p Prod.fst Prod.fst :=
  ⟨fun _ _ => rfl, fun _ => rfl, fun _ => rfl, rfl⟩

theorem image_snd (p : Program M C F) : Image p.withLog (journal C) Prod.snd Prod.snd :=
  ⟨fun _ _ => rfl, fun _ => rfl, fun _ => rfl, rfl⟩

section Journal

variable {s t : Disk (List C) (List C)}

-- the file holds the first changes of the map, all of them when no routine is still to write
structure Ordered (s : Disk (List C) (List C)) : Prop where
  consistent : Consistent (journal C).marshal s
  earlier : s.file <+: s.memory
  covered : Covered (journal C).marshal s

theorem ordered_init (log : List C) : Ordered (.init log log) :=
  ⟨consistent_init log log, List.prefix_refl _, .inl rfl⟩

theorem earlier_work (h : Consistent (journal C).marshal s) (hearlier : s.file <+: s.memory)
    {label : ScheduledWrite.Label C}
    (hs : ScheduledWrite.step (journal C).apply (journal C).marshal s label = some t) :
    s.file <+: t.file ∧ t.file <+: t.memory := by
  cases label with
  | change c =>
    obtain ⟨-, rfl⟩ := ScheduledWrite.step_change hs
    exact ⟨List.prefix_refl _, hearlier.trans (List.prefix_append _ _)⟩
  | run i =>
    obtain ⟨stage, next, hstage, hnext, rfl⟩ := ScheduledWrite.step_run hs
    have hmemory := memory_advance hnext
    rcases file_advance hnext with hsame | hwrite
    · simp only [hsame, hmemory]
      exact ⟨List.prefix_refl _, hearlier⟩
    · have hcontent : next.1.file = s.memory :=
        h.snapshot _ (hwrite ▸ List.mem_of_getElem? hstage)
      simp only [hcontent, hmemory]
      exact ⟨hearlier, List.prefix_refl _⟩

theorem ordered_step (h : Ordered s) {label : Label C} (hs : step (journal C) s label = some t) :
    Ordered t := by
  cases label with
  | work label =>
    exact ⟨consistent_step h.consistent hs, (earlier_work h.consistent h.earlier hs).2,
      covered_step h.consistent (.inr h.covered) hs⟩
  | restart torn =>
    obtain ⟨content, rfl, -⟩ := step_restart hs
    exact ordered_init content

theorem ordered_exec {labels : List (Label C)} (h : Ordered s)
    (hrun : exec (step (journal C)) s labels = some t) : Ordered t :=
  exec_invariant hrun h (fun _ _ _ hr ht => ordered_step hr ht)

theorem Ordered.file_eq (h : Ordered s) (hidle : s.routines = []) : s.file = s.memory := by
  rcases h.covered with hsame | ⟨stage, hmem, -⟩
  · exact hsame
  · simp [hidle] at hmem

theorem sublist_step {label : Label C} (h : Ordered s) (hs : step (journal C) s label = some t) :
    t.memory <+ s.memory ++ changesOf [label] := by
  cases label with
  | work label =>
    cases label with
    | change c =>
      rw [step_change hs]
      exact List.Sublist.refl _
    | run i =>
      obtain ⟨stage, next, -, hnext, rfl⟩ := step_run hs
      simp [memory_advance hnext, changesOf]
  | restart torn =>
    obtain ⟨content, rfl, rfl | ⟨-, rfl⟩⟩ := step_restart hs
    · exact h.earlier.sublist.trans (List.sublist_append_left _ _)
    · exact List.nil_sublist _

theorem changesOf_append (labels labels' : List (Label C)) :
    changesOf (labels ++ labels') = changesOf labels ++ changesOf labels' :=
  List.filterMap_append

-- what is in the file stays there, and what the map holds beyond it was changed thereafter
theorem kept_exec {kept : List C} {labels : List (Label C)} (h : Ordered s)
    (hkept : s.file = kept) (hmemory : s.memory = kept)
    (hrun : exec (step (journal C)) s labels = some t) (hwhole : .restart true ∉ labels) :
    ∃ rest, t.memory = kept ++ rest ∧ rest <+ changesOf labels := by
  have key : Ordered t ∧ (.restart true ∉ labels → kept <+: t.file ∧
      ∃ rest, t.memory = kept ++ rest ∧ rest <+ changesOf labels) := by
    refine exec_induction (motive := fun labels t => Ordered t ∧ (.restart true ∉ labels →
      kept <+: t.file ∧ ∃ rest, t.memory = kept ++ rest ∧ rest <+ changesOf labels)) hrun ?_ ?_
    · exact ⟨h, fun _ => ⟨by rw [hkept], [], by simp [hmemory], List.Sublist.refl _⟩⟩
    rintro js label r t - - ⟨hr, hkeep⟩ ht
    refine ⟨ordered_step hr ht, fun hnot => ?_⟩
    obtain ⟨hfile, rest, hrest, hsub⟩ := hkeep (fun hmem => hnot (List.mem_append_left _ hmem))
    have hfile' : kept <+: t.file := by
      cases label with
      | work label => exact hfile.trans (earlier_work hr.consistent hr.earlier ht).1
      | restart torn =>
        obtain ⟨content, rfl, rfl | ⟨rfl, -⟩⟩ := step_restart ht
        · exact hfile
        · simp at hnot
    obtain ⟨rest', hrest'⟩ := hfile'.trans (ordered_step hr ht).earlier
    refine ⟨hfile', rest', hrest'.symm, ?_⟩
    have hmore := sublist_step hr ht
    rw [← hrest', hrest, List.append_assoc, List.append_sublist_append_left] at hmore
    rw [changesOf_append]
    exact hmore.trans (hsub.append_right _)
  exact (key.2 hwhole).2

theorem journal_changes {labels : List (Label C)}
    (hrun : exec (step (journal C)) (journal C).start labels = some s) :
    s.memory <+ changesOf labels ∧
      ((∀ torn, .restart torn ∉ labels) → s.memory = changesOf labels) := by
  have key : Ordered s ∧ s.memory <+ changesOf labels ∧
      ((∀ torn, .restart torn ∉ labels) → s.memory = changesOf labels) := by
    refine exec_induction (motive := fun labels s => Ordered s ∧ s.memory <+ changesOf labels ∧
      ((∀ torn, .restart torn ∉ labels) → s.memory = changesOf labels)) hrun
      ⟨ordered_init [], List.Sublist.refl _, fun _ => rfl⟩ ?_
    rintro js label r t - - ⟨hr, hsub, hall⟩ ht
    refine ⟨ordered_step hr ht, ?_, fun hnone => ?_⟩
    · rw [changesOf_append]
      exact (sublist_step hr ht).trans (hsub.append_right _)
    · have hmemory := hall (fun torn hmem => hnone torn (List.mem_append_left _ hmem))
      rw [changesOf_append, ← hmemory]
      cases label with
      | restart torn => exact absurd (List.mem_append_right _ List.mem_cons_self) (hnone torn)
      | work label =>
        cases label with
        | change c =>
          rw [step_change ht]
          rfl
        | run i =>
          obtain ⟨stage, next, -, hnext, rfl⟩ := step_run ht
          simp [memory_advance hnext, changesOf]
  exact key.2

end Journal

-- the map stands for the changes it was made by, also after it was written and read
structure Represents (p : Program M C F) (Allowed : C → Prop) (R : M → List C → Prop) : Prop where
  broken : R (p.restore p.broken) []
  change : ∀ c m log, Allowed c → R m log → R (p.apply c m) (log ++ [c])
  written : ∀ m log, R m log → R (p.restore (p.marshal m)) log

section Represents

variable {p : Program M C F} {Allowed : C → Prop} {R : M → List C → Prop}

structure Represented (p : Program M C F) (R : M → List C → Prop)
    (s : Disk (M × List C) (F × List C)) : Prop where
  consistent : Consistent p.withLog.marshal s
  memory : R s.memory.1 s.memory.2
  file : R (p.restore s.file.1) s.file.2

theorem represented_init {content : F × List C} (h : R (p.restore content.1) content.2) :
    Represented p R (.init (p.withLog.restore content) content) :=
  ⟨consistent_init _ _, h, h⟩

theorem represented_step (h : Represents p Allowed R) {s t : Disk (M × List C) (F × List C)}
    (hs : Represented p R s) {label : Label C} (hallowed : ∀ c ∈ changesOf [label], Allowed c)
    (ht : step p.withLog s label = some t) : Represented p R t := by
  cases label with
  | work label =>
    have hconsistent : Consistent p.withLog.marshal t := consistent_step hs.consistent ht
    cases label with
    | change c =>
      obtain rfl := step_change ht
      exact ⟨hconsistent, h.change c _ _ (hallowed c (by simp [changesOf])) hs.memory, hs.file⟩
    | run i =>
      obtain ⟨stage, next, hstage, hnext, rfl⟩ := step_run ht
      have hmemory := memory_advance hnext
      refine ⟨hconsistent, by simpa only [hmemory] using hs.memory, ?_⟩
      rcases file_advance hnext with hsame | hwrite
      · simpa only [hsame] using hs.file
      · have hcontent : next.1.file = p.withLog.marshal s.memory :=
          hs.consistent.snapshot _ (hwrite ▸ List.mem_of_getElem? hstage)
        simp only [hcontent]
        exact h.written _ _ hs.memory
  | restart torn =>
    obtain ⟨content, rfl, rfl | ⟨-, rfl⟩⟩ := step_restart ht
    · exact represented_init hs.file
    · exact represented_init h.broken

-- every run of the program is followed by one of the journal, whose changes its map stands for
theorem journal_of_exec (h : Represents p Allowed R) {labels : List (Label C)} {s : Disk M F}
    (hallowed : ∀ c ∈ changesOf labels, Allowed c)
    (hrun : exec (step p) p.start labels = some s) :
    ∃ j, exec (step (journal C)) (journal C).start labels = some j ∧
      (s.routines = [] → j.routines = []) ∧ R s.memory j.memory ∧ R (p.restore s.file) j.file := by
  have hfst := exec_map (step_mapDisk (image_fst p)) p.withLog.start labels
  have hsnd := exec_map (step_mapDisk (image_snd p)) p.withLog.start labels
  rw [start_mapDisk (image_fst p), hrun] at hfst
  rw [start_mapDisk (image_snd p)] at hsnd
  obtain ⟨w, hw, rfl⟩ := Option.map_eq_some_iff.mp hfst
  have hrep : Represented p R w := by
    have key : (∀ c ∈ changesOf labels, Allowed c) → Represented p R w := by
      refine exec_induction (motive := fun labels w =>
        (∀ c ∈ changesOf labels, Allowed c) → Represented p R w) hw
        (fun _ => represented_init h.broken) ?_
      intro js label r t _ _ hr ht hall
      simp only [changesOf_append, List.forall_mem_append] at hall
      exact represented_step h (hr hall.1) hall.2 ht
    exact key hallowed
  refine ⟨mapDisk Prod.snd Prod.snd w, by rw [← hsnd, hw]; rfl, fun hidle => ?_, hrep.memory,
    hrep.file⟩
  simpa [mapDisk] using hidle

theorem recovered_sublist (h : Represents p Allowed R) {labels : List (Label C)} {s : Disk M F}
    (hallowed : ∀ c ∈ changesOf labels, Allowed c)
    (hrun : exec (step p) p.start labels = some s) :
    ∃ log saved, log <+ changesOf labels ∧ saved <+: log ∧ R s.memory log ∧
      R (p.restore s.file) saved := by
  obtain ⟨j, hj, -, hmemory, hfile⟩ := journal_of_exec h hallowed hrun
  exact ⟨j.memory, j.file, (journal_changes hj).1, (ordered_exec (ordered_init []) hj).earlier,
    hmemory, hfile⟩

theorem idle_kept (h : Represents p Allowed R) {before after : List (Label C)} {s t : Disk M F}
    (hallowed : ∀ c ∈ changesOf (before ++ after), Allowed c)
    (hbefore : exec (step p) p.start before = some s) (hidle : s.routines = [])
    (hafter : exec (step p) s after = some t) (hwhole : .restart true ∉ after) :
    ∃ log rest, log <+ changesOf before ∧
      ((∀ torn, .restart torn ∉ before) → log = changesOf before) ∧ rest <+ changesOf after ∧
      R s.memory log ∧ R t.memory (log ++ rest) := by
  have hrun : exec (step p) p.start (before ++ after) = some t := by
    rw [exec_append, hbefore]
    exact hafter
  obtain ⟨k, hk, -, hkmemory, -⟩ := journal_of_exec h hallowed hrun
  rw [changesOf_append, List.forall_mem_append] at hallowed
  obtain ⟨j, hj, hjidle, hmemory, -⟩ := journal_of_exec h hallowed.1 hbefore
  have hordered := ordered_exec (ordered_init []) hj
  rw [exec_append, hj] at hk
  obtain ⟨rest, hrest, hsub⟩ :=
    kept_exec hordered (hordered.file_eq (hjidle hidle)) rfl hk hwhole
  exact ⟨j.memory, rest, (journal_changes hj).1, (journal_changes hj).2, hsub, hmemory,
    hrest ▸ hkmemory⟩

end Represents

end FogFlow.Recovery
