import FogFlow.Library.Execution

namespace FogFlow.LoopVariable

open Execution

variable {α ρ ε : Type*} {start : ρ} {run : α → ρ → ε → Option ρ}

-- own is what the loop variable held in the round that started the routine
structure Routine (α ρ ε : Type*) where
  own : α
  seen : List ε
  now : ρ

-- a range loop before Go 1.22: every round writes the one variable, and every routine is given
-- its address
structure State (α ρ ε : Type*) where
  todo : List α
  current : Option α
  routines : List (Routine α ρ ε)

def State.initial (as : List α) : State α ρ ε := ⟨as, none, []⟩

inductive Label (ε : Type*) where
  | next
  | run (k : Nat) (e : ε)

def advance (run : α → ρ → ε → Option ρ) (a : α) (r : Routine α ρ ε) (e : ε) :
    Option (Routine α ρ ε) :=
  (run a r.now e).map (fun now => ⟨r.own, r.seen ++ [e], now⟩)

def step (start : ρ) (run : α → ρ → ε → Option ρ) (s : State α ρ ε) :
    Label ε → Option (State α ρ ε)
  | .next =>
    match s.todo with
    | [] => none
    | a :: as => some ⟨as, some a, s.routines ++ [⟨a, [], start⟩]⟩
  | .run k e => s.current.bind (fun a => (s.routines[k]?).bind (fun r =>
      (advance run a r e).map (fun r' => { s with routines := s.routines.set k r' })))

-- where the routine would be if the variable had held its own element all along
def Routine.Own (start : ρ) (run : α → ρ → ε → Option ρ) (r : Routine α ρ ε) : Prop :=
  exec (run r.own) start r.seen = some r.now

structure Separate (start : ρ) (run : α → ρ → ε → Option ρ) (as : List α)
    (s : State α ρ ε) : Prop where
  each : s.routines.map Routine.own ++ s.todo = as
  own : ∀ r ∈ s.routines, r.Own start run

def ReadsOwn (run : α → ρ → ε → Option ρ) (s : State α ρ ε) : Label ε → Prop
  | .next => True
  | .run k e => ∀ a r, s.current = some a → s.routines[k]? = some r →
      run a r.now e = run r.own r.now e

variable {as : List α} {s t : State α ρ ε} {k : Nat} {e : ε}

theorem step_next (h : step start run s .next = some t) : ∃ a todo, s.todo = a :: todo ∧
    t = ⟨todo, some a, s.routines ++ [⟨a, [], start⟩]⟩ := by
  cases htodo : s.todo with
  | nil => simp [step, htodo] at h
  | cons a todo => exact ⟨a, todo, rfl, by simpa [step, htodo] using h.symm⟩

theorem step_run (h : step start run s (.run k e) = some t) : ∃ a r now,
    s.current = some a ∧ s.routines[k]? = some r ∧ run a r.now e = some now ∧
      t = { s with routines := s.routines.set k ⟨r.own, r.seen ++ [e], now⟩ } := by
  obtain ⟨a, ha, h⟩ := Option.bind_eq_some_iff.mp h
  obtain ⟨r, hr, h⟩ := Option.bind_eq_some_iff.mp h
  obtain ⟨r', hr', rfl⟩ := Option.map_eq_some_iff.mp h
  obtain ⟨now, hnow, rfl⟩ := Option.map_eq_some_iff.mp hr'
  exact ⟨a, r, now, ha, hr, hnow, rfl⟩

theorem map_own_set {routines : List (Routine α ρ ε)} {r : Routine α ρ ε}
    (hr : routines[k]? = some r) (seen : List ε) (now : ρ) :
    (routines.set k ⟨r.own, seen, now⟩).map Routine.own = routines.map Routine.own := by
  obtain ⟨hlt, rfl⟩ := List.getElem?_eq_some_iff.mp hr
  have hlt : k < (routines.map Routine.own).length := by rwa [List.length_map]
  have hown : (routines.map Routine.own)[k] = routines[k].own := List.getElem_map _
  rw [List.map_set, ← hown, List.set_getElem_self]

theorem each_step (h : s.routines.map Routine.own ++ s.todo = as) {i : Label ε}
    (hs : step start run s i = some t) : t.routines.map Routine.own ++ t.todo = as := by
  cases i with
  | next =>
    obtain ⟨a, todo, htodo, rfl⟩ := step_next hs
    rw [← h, htodo, List.map_append, List.append_assoc]
    rfl
  | run k e =>
    obtain ⟨a, r, now, -, hr, -, rfl⟩ := step_run hs
    rw [← h]
    exact congrArg (· ++ s.todo) (map_own_set hr _ now)

theorem each_of_exec {is : List (Label ε)} (h : exec (step start run) (.initial as) is = some s) :
    s.routines.map Routine.own ++ s.todo = as :=
  exec_invariant (P := fun s => s.routines.map Routine.own ++ s.todo = as) h rfl
    (fun _ _ _ h hs => each_step h hs)

theorem separate_initial (as : List α) : Separate start run as (State.initial as) :=
  ⟨rfl, fun _ hr => absurd hr List.not_mem_nil⟩

theorem Separate.next (h : Separate start run as s) (hs : step start run s .next = some t) :
    Separate start run as t := by
  refine ⟨each_step h.each hs, fun r hr => ?_⟩
  obtain ⟨a, todo, htodo, rfl⟩ := step_next hs
  rcases List.mem_append.mp hr with hr | hr
  · exact h.own r hr
  · obtain rfl := List.mem_singleton.mp hr
    rfl

-- the one routine that moves is where its own element would have taken it exactly when it read
-- what its own element has
theorem Separate.run_iff (h : Separate start run as s)
    (hs : step start run s (.run k e) = some t) :
    ReadsOwn run s (.run k e) ↔ Separate start run as t := by
  have heach : t.routines.map Routine.own ++ t.todo = as := each_step h.each hs
  obtain ⟨a, r, now, ha, hr, hnow, rfl⟩ := step_run hs
  have hold : exec (run r.own) start r.seen = some r.now := h.own r (List.mem_of_getElem? hr)
  have hiff : Routine.Own start run ⟨r.own, r.seen ++ [e], now⟩ ↔
      run r.own r.now e = some now := by
    rw [Routine.Own, exec_concat]
    constructor
    · rintro ⟨now', hnow', hmove⟩
      obtain rfl := Option.some.inj (hold.symm.trans hnow')
      exact hmove
    · exact fun hmove => ⟨r.now, hold, hmove⟩
  have hlt : k < s.routines.length := (List.getElem?_eq_some_iff.mp hr).1
  constructor
  · intro hreads
    refine ⟨heach, fun r' hr' => ?_⟩
    rcases List.mem_or_eq_of_mem_set hr' with hr' | rfl
    · exact h.own r' hr'
    · exact hiff.mpr ((hreads a r ha hr).symm.trans hnow)
  · intro hsep a' r' ha' hr'
    obtain rfl := Option.some.inj (ha.symm.trans ha')
    obtain rfl := Option.some.inj (hr.symm.trans hr')
    rw [hnow, hiff.mp (hsep.own _ (List.mem_set hlt _))]

theorem separate_iff {is : List (Label ε)} {u : State α ρ ε}
    (hrun : exec (step start run) (.initial as) is = some u) :
    Always (step start run) (Separate start run as) (.initial as) is ↔
      Meets (step start run) (ReadsOwn run) (.initial as) is := by
  refine always_iff_meets (I := fun _ s => Separate start run as s) hrun (separate_initial as)
    (separate_initial as) ?_ ?_
  · intro js i s t _ hsep hc hs
    cases i with
    | next => exact hsep.next hs
    | run k e => exact (hsep.run_iff hs).mp hc
  · intro js i s t _ hsep hs
    cases i with
    | next => exact iff_of_true trivial (hsep.next hs)
    | run k e => exact hsep.run_iff hs

-- a routine has been started by a round, and the round has set the variable
theorem current_of_exec {is : List (Label ε)} {r : Routine α ρ ε}
    (h : exec (step start run) (.initial as) is = some s) (hr : r ∈ s.routines) :
    ∃ a, s.current = some a := by
  have hset : s.routines ≠ [] → ∃ a, s.current = some a := by
    refine exec_invariant (P := fun s => s.routines ≠ [] → ∃ a, s.current = some a) h
      (fun hne => absurd rfl hne) (fun s i t hset hs _ => ?_)
    cases i with
    | next =>
      obtain ⟨a, todo, -, rfl⟩ := step_next hs
      exact ⟨a, rfl⟩
    | run k e =>
      obtain ⟨a, r, now, ha, -, -, rfl⟩ := step_run hs
      exact ⟨a, ha⟩
  exact hset (List.ne_nil_of_mem hr)

-- the loop leaves an element only when nobody reads it any more
def Waits (ended : ρ → Prop) (s : State α ρ ε) : Label ε → Prop
  | .next => ∀ r ∈ s.routines, ended r.now ∨ s.todo.head? = some r.own
  | .run _ _ => True

theorem separate_of_waits {ended : ρ → Prop} (hended : ∀ a p e, ended p → run a p e = none)
    {is : List (Label ε)} (hm : Meets (step start run) (Waits ended) (.initial as) is) :
    Always (step start run) (Separate start run as) (.initial as) is := by
  refine always_of_meets (I := fun _ s => Separate start run as s ∧
    ∀ r ∈ s.routines, ended r.now ∨ s.current = some r.own) hm
    ⟨separate_initial as, fun _ hr => absurd hr List.not_mem_nil⟩ ?_ (fun _ _ h => h.1)
  rintro js i s t - - ⟨hsep, hI⟩ hc hs
  cases i with
  | next =>
    refine ⟨hsep.next hs, fun r hr => ?_⟩
    obtain ⟨a, todo, htodo, rfl⟩ := step_next hs
    rcases List.mem_append.mp hr with hr | hr
    · have hnext := hc r hr
      rwa [htodo] at hnext
    · obtain rfl := List.mem_singleton.mp hr
      exact Or.inr rfl
  | run k e =>
    obtain ⟨a, r, now, ha, hr, hnow, ht⟩ := step_run hs
    have hcurrent : s.current = some r.own := by
      refine (hI r (List.mem_of_getElem? hr)).resolve_left (fun hend => ?_)
      rw [hended a r.now e hend] at hnow
      cases hnow
    refine ⟨(hsep.run_iff hs).mp (fun a' r' ha' hr' => ?_), fun r' hr' => ?_⟩
    · obtain rfl := Option.some.inj (hr.symm.trans hr')
      rw [Option.some.inj (ha'.symm.trans hcurrent)]
    · subst ht
      rcases List.mem_or_eq_of_mem_set hr' with hr' | rfl
      · exact hI r' hr'
      · exact Or.inr hcurrent

end FogFlow.LoopVariable
