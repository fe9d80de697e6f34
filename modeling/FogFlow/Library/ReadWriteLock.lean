import FogFlow.Library.Execution
import FogFlow.Library.Pool

namespace FogFlow.ReadWriteLock

open Execution

-- what a routine does to the data D under the lock and to the rest S of the state, and what R it
-- starts
inductive Op (D S R : Type) where
  | lock
  | unlock
  | rLock
  | rUnlock
  | read
  | write (change : D → D)
  | await (change : S → Option S)
  | returnIf (test : S → Bool)
  | go (r : R)

-- how a routine holds the lock by its own calls, whatever the lock itself counts
inductive Mode where
  | free
  | reading
  | writing
deriving DecidableEq, Repr

structure Routine (D S R : Type) where
  request : R
  mode : Mode
  rest : List (Op D S R)

structure Server (D S R : Type) where
  data : D
  shared : S
  readers : Nat
  writing : Bool
  fatal : Bool
  routines : List (Routine D S R)

def Server.init {D S R : Type} (data : D) (shared : S) : Server D S R :=
  ⟨data, shared, 0, false, false, []⟩

inductive Label (R : Type) where
  | start (r : R)
  | run (i : Nat)

variable {D S R : Type} (program : R → List (Op D S R))

def begin (r : R) : Routine D S R := ⟨r, .free, program r⟩

def Routine.goOn (routine : Routine D S R) (mode : Mode) : Routine D S R :=
  { routine with mode := mode, rest := routine.rest.tail }

-- giving back a lock that nobody holds is a fatal error and ends the process
def perform (s : Server D S R) (routine : Routine D S R) :
    Op D S R → Option (Server D S R × Routine D S R × List (Routine D S R))
  | .lock =>
      if s.readers = 0 ∧ s.writing = false then
        some ({ s with writing := true }, routine.goOn .writing, [])
      else none
  | .unlock =>
      if s.writing then some ({ s with writing := false }, routine.goOn .free, [])
      else some ({ s with fatal := true }, routine.goOn .free, [])
  | .rLock =>
      if s.writing then none
      else some ({ s with readers := s.readers + 1 }, routine.goOn .reading, [])
  | .rUnlock =>
      if s.readers = 0 then some ({ s with fatal := true }, routine.goOn .free, [])
      else some ({ s with readers := s.readers - 1 }, routine.goOn .free, [])
  | .read => some (s, routine.goOn routine.mode, [])
  | .write change => some ({ s with data := change s.data }, routine.goOn routine.mode, [])
  | .await change =>
      (change s.shared).map (fun shared => ({ s with shared }, routine.goOn routine.mode, []))
  | .returnIf test =>
      some (s, if test s.shared then { routine with rest := [] } else routine.goOn routine.mode, [])
  | .go r => some (s, routine.goOn routine.mode, [begin program r])

def step (s : Server D S R) : Label R → Option (Server D S R)
  | .start r =>
      if s.fatal then none else some { s with routines := s.routines ++ [begin program r] }
  | .run i =>
      if s.fatal then none
      else (s.routines[i]?).bind (fun routine => routine.rest.head?.bind (fun op =>
        (perform program s routine op).map (fun next =>
          { next.1 with routines := s.routines.set i next.2.1 ++ next.2.2 })))

-- the operation is one that the routine may do with the lock as it holds it
def Op.Proper (mode : Mode) : Op D S R → Prop
  | .unlock | .write _ => mode = .writing
  | .rUnlock => mode = .reading
  | .read => mode ≠ .free
  | _ => True

def Proper (s : Server D S R) : Label R → Prop
  | .start _ => True
  | .run i => ∀ routine op rest, s.routines[i]? = some routine → routine.rest = op :: rest →
      op.Proper routine.mode

def Idle (s : Server D S R) : Prop := ∀ routine ∈ s.routines, routine.rest = []

def FreeWhenIdle (s : Server D S R) : Prop := Idle s → s.readers = 0 ∧ s.writing = false

variable (allowed : R → Bool)

def Op.after (mode : Mode) : Op D S R → Option Mode
  | .lock => if mode = .free then some .writing else none
  | .rLock => if mode = .free then some .reading else none
  | .unlock => if mode = .writing then some .free else none
  | .rUnlock => if mode = .reading then some .free else none
  | .read => if mode = .free then none else some mode
  | .write _ => if mode = .writing then some mode else none
  | .await _ => some mode
  | .returnIf _ => if mode = .free then some mode else none
  | .go r => if allowed r then some mode else none

-- the routine takes the lock before it uses the data and has given it back wherever it returns
def disciplined : Mode → List (Op D S R) → Bool
  | mode, [] => mode == .free
  | mode, op :: rest =>
      match op.after allowed mode with
      | some mode' => disciplined mode' rest
      | none => false

structure Follows (routine : Routine D S R) : Prop where
  keeps : allowed routine.request = true →
    disciplined allowed routine.mode routine.rest = true
  waiting : allowed routine.request = false →
    routine.mode = .free ∧ routine.rest = program routine.request

def holders (mode : Mode) (routines : List (Routine D S R)) : Nat :=
  routines.countP (fun routine => routine.mode == mode)

structure Sound (s : Server D S R) : Prop where
  calm : s.fatal = false
  follows : ∀ routine ∈ s.routines, Follows program allowed routine
  readers : holders .reading s.routines = s.readers
  writer : holders .writing s.routines = if s.writing then 1 else 0
  apart : s.writing = true → s.readers = 0

-- the step is not one of a routine outside the allowed ones
def Permitted (s : Server D S R) : Label R → Prop
  | .start _ => True
  | .run i => ∀ routine, s.routines[i]? = some routine → allowed routine.request = true

variable {program allowed} {s t : Server D S R} {routine routine' : Routine D S R}
  {op : Op D S R} {rest : List (Op D S R)} {mode mode' : Mode} {i : Nat} {r : R}

theorem disciplined_cons (h : disciplined allowed mode (op :: rest) = true) :
    ∃ mode', op.after allowed mode = some mode' ∧ disciplined allowed mode' rest = true := by
  rw [disciplined] at h
  cases hafter : op.after allowed mode with
  | none =>
    rw [hafter] at h
    cases h
  | some mode' =>
    rw [hafter] at h
    exact ⟨mode', rfl, h⟩

theorem proper_of_after (h : op.after allowed mode = some mode') : op.Proper mode := by
  cases op <;> cases mode <;> simp [Op.after] at h <;> simp [Op.Proper]

theorem step_start (h : step program s (.start r) = some t) :
    s.fatal = false ∧ t = { s with routines := s.routines ++ [begin program r] } := by
  simp only [step] at h
  split_ifs at h with hfatal
  exact ⟨by simpa using hfatal, (Option.some.inj h).symm⟩

theorem step_run (h : step program s (.run i) = some t) :
    ∃ routine op rest next, s.routines[i]? = some routine ∧ routine.rest = op :: rest ∧
      perform program s routine op = some next ∧
      t = { next.1 with routines := s.routines.set i next.2.1 ++ next.2.2 } := by
  simp only [step] at h
  split_ifs at h
  obtain ⟨routine, hroutine, h⟩ := Option.bind_eq_some_iff.mp h
  obtain ⟨op, hop, h⟩ := Option.bind_eq_some_iff.mp h
  obtain ⟨next, hnext, rfl⟩ := Option.map_eq_some_iff.mp h
  obtain ⟨rest, hrest⟩ := List.head?_eq_some_iff.mp hop
  exact ⟨routine, op, rest, next, hroutine, hrest, hnext, rfl⟩

theorem follows_begin (hallowed : ∀ r, allowed r = true → disciplined allowed .free (program r) = true)
    (r : R) : Follows program allowed (begin program r) :=
  ⟨hallowed r, fun _ => ⟨rfl, rfl⟩⟩

theorem holders_append (mode : Mode) (routines started : List (Routine D S R)) :
    holders mode (routines ++ started) = holders mode routines + holders mode started :=
  List.countP_append

theorem holders_started {started : List (Routine D S R)} (h : ∀ r ∈ started, r.mode = .free)
    (hmode : mode ≠ .free) : holders mode started = 0 := by
  refine List.countP_eq_zero.mpr (fun r hr => ?_)
  rw [h r hr, beq_iff_eq]
  exact hmode.symm

theorem holders_set (mode : Mode) (hi : s.routines[i]? = some routine)
    (routine' : Routine D S R) :
    holders mode (s.routines.set i routine') + (if routine.mode = mode then 1 else 0) =
      holders mode s.routines + if routine'.mode = mode then 1 else 0 := by
  have hcount := Pool.countP_set (p := fun routine : Routine D S R => routine.mode == mode) hi
    routine'
  simpa only [holders, beq_iff_eq] using hcount

theorem sound_init (data : D) (shared : S) : Sound program allowed (.init data shared) :=
  ⟨rfl, by simp [Server.init], rfl, rfl, by simp [Server.init]⟩

theorem Sound.start (h : Sound program allowed s)
    (hallowed : ∀ r, allowed r = true → disciplined allowed .free (program r) = true) (r : R) :
    Sound program allowed { s with routines := s.routines ++ [begin program r] } := by
  have hstarted : ∀ routine ∈ [begin program r], routine.mode = .free := by simp [begin]
  refine ⟨h.calm, fun routine hmem => ?_, ?_, ?_, h.apart⟩
  · rcases List.mem_append.mp hmem with hmem | hmem
    · exact h.follows routine hmem
    · rw [List.mem_singleton.mp hmem]
      exact follows_begin hallowed r
  · rw [holders_append, holders_started hstarted (by decide), h.readers, Nat.add_zero]
  · rw [holders_append, holders_started hstarted (by decide), h.writer, Nat.add_zero]

-- what a step changes of the lock is what it changes of the routine that takes it
theorem Sound.next (h : Sound program allowed s) (hi : s.routines[i]? = some routine)
    {started : List (Routine D S R)} (hroutine : Follows program allowed routine')
    (hstarted : ∀ r ∈ started, Follows program allowed r ∧ r.mode = .free)
    (hfatal : t.fatal = false)
    (hreaders : t.readers + (if routine.mode = .reading then 1 else 0) =
      s.readers + if routine'.mode = .reading then 1 else 0)
    (hwriting : (if t.writing then 1 else 0) + (if routine.mode = .writing then 1 else 0) =
      (if s.writing then 1 else 0) + if routine'.mode = .writing then 1 else 0)
    (hapart : t.writing = true → t.readers = 0) :
    Sound program allowed { t with routines := s.routines.set i routine' ++ started } := by
  have hfree : ∀ r ∈ started, r.mode = .free := fun r hr => (hstarted r hr).2
  refine ⟨hfatal, fun r hr => ?_, ?_, ?_, hapart⟩
  · rcases List.mem_append.mp hr with hr | hr
    · rcases List.mem_or_eq_of_mem_set hr with hr | rfl
      · exact h.follows r hr
      · exact hroutine
    · exact (hstarted r hr).1
  · have hset := holders_set .reading hi routine'
    rw [holders_append, holders_started hfree (by decide), Nat.add_zero]
    rw [h.readers] at hset
    dsimp only
    omega
  · have hset := holders_set .writing hi routine'
    rw [holders_append, holders_started hfree (by decide), Nat.add_zero]
    rw [h.writer] at hset
    dsimp only
    omega

theorem Sound.reader_counted (h : Sound program allowed s) (hmem : routine ∈ s.routines)
    (hmode : routine.mode = .reading) : 0 < s.readers := by
  rw [← h.readers]
  exact List.countP_pos_iff.mpr ⟨routine, hmem, by rw [hmode]; rfl⟩

theorem Sound.writer_counted (h : Sound program allowed s) (hmem : routine ∈ s.routines)
    (hmode : routine.mode = .writing) : s.writing = true := by
  by_contra hnot
  have hnone := h.writer
  rw [if_neg hnot] at hnone
  exact List.countP_eq_zero.mp hnone routine hmem (by rw [hmode]; rfl)

theorem follows_goOn (hallowed : allowed routine.request = true) (hrest : routine.rest = op :: rest)
    (hmode : disciplined allowed mode rest = true) :
    Follows program allowed (routine.goOn mode) := by
  refine ⟨fun _ => ?_, fun hnot => ?_⟩
  · rw [Routine.goOn, hrest]
    exact hmode
  · rw [Routine.goOn, hallowed] at hnot
    cases hnot

theorem Sound.run (h : Sound program allowed s)
    (hprogram : ∀ r, allowed r = true → disciplined allowed .free (program r) = true)
    (hi : s.routines[i]? = some routine) (hallowed : allowed routine.request = true)
    (hrest : routine.rest = op :: rest) {next}
    (hnext : perform program s routine op = some next) :
    Sound program allowed { next.1 with routines := s.routines.set i next.2.1 ++ next.2.2 } := by
  have hmem := List.mem_of_getElem? hi
  have hfollows := h.follows routine hmem
  have hdisciplined := hfollows.keeps hallowed
  rw [hrest] at hdisciplined
  obtain ⟨mode', hafter, hmode'⟩ := disciplined_cons hdisciplined
  have hgo : Follows program allowed (routine.goOn mode') := follows_goOn hallowed hrest hmode'
  cases op with
  | lock =>
    simp only [Op.after, Option.ite_none_right_eq_some, Option.some.injEq] at hafter
    obtain ⟨hfree, rfl⟩ := hafter
    simp only [perform, Option.ite_none_right_eq_some, Option.some.injEq] at hnext
    obtain ⟨⟨hreaders, hwriting⟩, rfl⟩ := hnext
    exact h.next hi hgo (by simp) h.calm (by simp [hfree, Routine.goOn])
      (by simp [hfree, hwriting, Routine.goOn]) (fun _ => hreaders)
  | rLock =>
    simp only [Op.after, Option.ite_none_right_eq_some, Option.some.injEq] at hafter
    obtain ⟨hfree, rfl⟩ := hafter
    simp only [perform, Option.ite_none_left_eq_some, Option.some.injEq] at hnext
    obtain ⟨hwriting, rfl⟩ := hnext
    exact h.next hi hgo (by simp) h.calm (by simp [hfree, Routine.goOn])
      (by simp [hfree, Routine.goOn]) (fun hw => absurd hw hwriting)
  | unlock =>
    simp only [Op.after, Option.ite_none_right_eq_some, Option.some.injEq] at hafter
    obtain ⟨hheld, rfl⟩ := hafter
    have hwriting := h.writer_counted hmem hheld
    rw [perform, if_pos hwriting] at hnext
    obtain rfl := Option.some.inj hnext
    exact h.next hi hgo (by simp) h.calm (by simp [hheld, Routine.goOn])
      (by simp [hheld, hwriting, Routine.goOn]) (fun hw => by simp at hw)
  | rUnlock =>
    simp only [Op.after, Option.ite_none_right_eq_some, Option.some.injEq] at hafter
    obtain ⟨hheld, rfl⟩ := hafter
    have hreaders := h.reader_counted hmem hheld
    rw [perform, if_neg (by omega)] at hnext
    obtain rfl := Option.some.inj hnext
    refine h.next hi hgo (by simp) h.calm ?_ (by simp [hheld, Routine.goOn]) (fun hw => ?_)
    · simp only [hheld, Routine.goOn]
      simp
      omega
    · have hnone := h.apart hw
      dsimp only
      omega
  | read =>
    simp only [Op.after, Option.ite_none_left_eq_some, Option.some.injEq] at hafter
    obtain ⟨-, rfl⟩ := hafter
    obtain rfl := Option.some.inj hnext
    exact h.next hi hgo (by simp) h.calm rfl rfl h.apart
  | write change =>
    simp only [Op.after, Option.ite_none_right_eq_some, Option.some.injEq] at hafter
    obtain ⟨-, rfl⟩ := hafter
    obtain rfl := Option.some.inj hnext
    exact h.next hi hgo (by simp) h.calm rfl rfl h.apart
  | await change =>
    obtain rfl := Option.some.inj hafter
    obtain ⟨shared, -, rfl⟩ := Option.map_eq_some_iff.mp hnext
    exact h.next hi hgo (by simp) h.calm rfl rfl h.apart
  | returnIf test =>
    simp only [Op.after, Option.ite_none_right_eq_some, Option.some.injEq] at hafter
    obtain ⟨hfree, rfl⟩ := hafter
    obtain rfl := Option.some.inj hnext
    dsimp only
    split_ifs
    · refine h.next hi ⟨fun _ => ?_, fun hnot => ?_⟩ (by simp) h.calm rfl rfl h.apart
      · rw [hfree]
        rfl
      · rw [hallowed] at hnot
        cases hnot
    · exact h.next hi hgo (by simp) h.calm rfl rfl h.apart
  | go r =>
    simp only [Op.after, Option.ite_none_right_eq_some, Option.some.injEq] at hafter
    obtain ⟨hr, rfl⟩ := hafter
    obtain rfl := Option.some.inj hnext
    refine h.next hi hgo (fun r' hr' => ?_) h.calm rfl rfl h.apart
    rw [List.mem_singleton.mp hr']
    exact ⟨follows_begin hprogram r, rfl⟩

theorem Sound.step (h : Sound program allowed s)
    (hprogram : ∀ r, allowed r = true → disciplined allowed .free (program r) = true)
    {label : Label R} (hpermitted : Permitted allowed s label)
    (ht : ReadWriteLock.step program s label = some t) :
    Sound program allowed t := by
  cases label with
  | start r =>
    obtain ⟨-, rfl⟩ := step_start ht
    exact h.start hprogram r
  | run i =>
    obtain ⟨routine, op, rest, next, hi, hrest, hnext, rfl⟩ := step_run ht
    exact h.run hprogram hi (hpermitted routine hi) hrest hnext

theorem Sound.freeWhenIdle (h : Sound program allowed s) : FreeWhenIdle s := by
  intro hidle
  have hfree : ∀ routine ∈ s.routines, routine.mode = .free := by
    intro routine hmem
    cases hallowed : allowed routine.request with
    | false => exact ((h.follows routine hmem).waiting hallowed).1
    | true =>
      have hkeeps := (h.follows routine hmem).keeps hallowed
      rw [hidle routine hmem] at hkeeps
      simpa [disciplined] using hkeeps
  have hwriter := h.writer
  rw [holders_started hfree (by decide)] at hwriter
  refine ⟨?_, ?_⟩
  · rw [← h.readers, holders_started hfree (by decide)]
  · by_contra hwriting
    rw [Bool.not_eq_false] at hwriting
    rw [if_pos hwriting] at hwriter
    cases hwriter

theorem proper_iff_permitted (h : Sound program allowed s)
    (hother : ∀ r, allowed r = false → ∃ op rest, program r = op :: rest ∧ ¬ op.Proper .free)
    {label : Label R} (ht : ReadWriteLock.step program s label = some t) :
    Proper s label ↔ Permitted allowed s label := by
  cases label with
  | start r => exact iff_of_true trivial trivial
  | run i =>
    obtain ⟨routine, op, rest, next, hi, hrest, -, -⟩ := step_run ht
    have hfollows := h.follows routine (List.mem_of_getElem? hi)
    constructor
    · intro hproper routine' hi'
      obtain rfl := Option.some.inj (hi.symm.trans hi')
      by_contra hnot
      rw [Bool.not_eq_true] at hnot
      obtain ⟨hmode, hprogram⟩ := hfollows.waiting hnot
      obtain ⟨op', rest', hhead, hbad⟩ := hother routine.request hnot
      have hop := hproper routine op' rest' hi (by rw [hprogram, hhead])
      rw [hmode] at hop
      exact hbad hop
    · intro hpermitted routine' op' rest' hi' hrest'
      have hkeeps := (h.follows routine' (List.mem_of_getElem? hi')).keeps (hpermitted routine' hi')
      rw [hrest'] at hkeeps
      obtain ⟨mode', hafter, -⟩ := disciplined_cons hkeeps
      exact proper_of_after hafter

-- the lock is kept in exactly the runs without a step of a routine that starts without it
theorem lock_kept_iff
    (hprogram : ∀ r, allowed r = true → disciplined allowed .free (program r) = true)
    (hother : ∀ r, allowed r = false → ∃ op rest, program r = op :: rest ∧ ¬ op.Proper .free)
    {data : D} {shared : S} {labels : List (Label R)}
    (hrun : exec (ReadWriteLock.step program) (.init data shared) labels = some s) :
    (Meets (ReadWriteLock.step program) Proper (.init data shared) labels ∧
        Always (ReadWriteLock.step program) FreeWhenIdle (.init data shared) labels) ↔
      Meets (ReadWriteLock.step program) (Permitted allowed) (.init data shared) labels := by
  rw [meets_congr (P := Sound program allowed) hrun (sound_init data shared)
    (fun _ _ _ hs ht => proper_iff_permitted hs hother ht)
    (fun _ _ _ hs hp ht => hs.step hprogram hp ht)]
  refine and_iff_left_of_imp (fun hmeets => ?_)
  exact always_of_meets (I := fun _ s => Sound program allowed s) hmeets (sound_init data shared)
    (fun _ _ _ _ _ _ hs hp ht => hs.step hprogram hp ht) (fun _ _ hs => hs.freeWhenIdle)

end FogFlow.ReadWriteLock
