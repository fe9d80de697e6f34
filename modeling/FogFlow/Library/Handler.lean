import Mathlib.Data.List.Basic

namespace FogFlow

-- a handler of a server ends, panics (which leaves the state as it is) or waits for ever
inductive Exit where
  | done
  | panicked
  | blocked
deriving DecidableEq, Repr

structure Outcome (σ : Type*) where
  state : σ
  exit : Exit

abbrev Handler (σ : Type*) := σ → Outcome σ

namespace Handler

variable {σ α : Type*} {P : σ → Prop} {h k : Handler σ} {f : α → Handler σ} {s : σ}

def skip : Handler σ := fun s => ⟨s, .done⟩

def fault : Handler σ := fun s => ⟨s, .panicked⟩

def modify (g : σ → σ) : Handler σ := fun s => ⟨g s, .done⟩

def seq (h k : Handler σ) : Handler σ := fun s =>
  match (h s).exit with
  | .done => k (h s).state
  | _ => h s

def each (f : α → Handler σ) : List α → Handler σ
  | [] => skip
  | a :: rest => seq (f a) (each f rest)

theorem each_singleton (f : α → Handler σ) (a : α) : each f [a] s = f a s := by
  have h : each f [a] s = seq (f a) skip s := rfl
  rw [h, seq]
  obtain ⟨t, exit⟩ := f a s
  cases exit <;> rfl

-- the handler ends normally and keeps the property
def Keeps (P : σ → Prop) (h : Handler σ) : Prop :=
  ∀ s, P s → (h s).exit = .done ∧ P (h s).state

theorem keeps_skip : Keeps P skip := fun _ hs => ⟨rfl, hs⟩

theorem seq_of_done (hd : (h s).exit = .done) : seq h k s = k (h s).state := by
  simp [seq, hd]

theorem seq_of_blocked (hb : (h s).exit = .blocked) : seq h k s = h s := by
  simp [seq, hb]

theorem seq_eq_done : (seq h k s).exit = .done ↔
    (h s).exit = .done ∧ (k (h s).state).exit = .done := by
  unfold seq
  cases he : (h s).exit <;> simp [he]

theorem keeps_seq (hh : Keeps P h) (hk : Keeps P k) : Keeps P (seq h k) := by
  intro s hs
  obtain ⟨hd, hp⟩ := hh s hs
  rw [seq_of_done hd]
  exact hk _ hp

theorem keeps_each {xs : List α} (hf : ∀ a ∈ xs, Keeps P (f a)) : Keeps P (each f xs) := by
  induction xs with
  | nil => exact keeps_skip
  | cons a rest ih =>
    exact keeps_seq (hf a (by simp)) (ih (fun b hb => hf b (List.mem_cons_of_mem _ hb)))

-- however the handler ends, it leaves the property true
def Leaves (P : σ → Prop) (h : Handler σ) : Prop := ∀ s, P s → P (h s).state

theorem leaves_skip : Leaves P skip := fun _ hs => hs

theorem leaves_fault : Leaves P fault := fun _ hs => hs

theorem leaves_seq (hh : Leaves P h) (hk : Leaves P k) : Leaves P (seq h k) := by
  intro s hs
  unfold seq
  split
  · exact hk _ (hh s hs)
  · exact hh s hs

theorem leaves_each {xs : List α} (hf : ∀ a ∈ xs, Leaves P (f a)) : Leaves P (each f xs) := by
  induction xs with
  | nil => exact leaves_skip
  | cons a rest ih =>
    exact leaves_seq (hf a (by simp)) (ih (fun b hb => hf b (List.mem_cons_of_mem _ hb)))

-- a loop that ends has ended each of its rounds, from whatever state
theorem exists_done_of_each {xs : List α} (hd : (each f xs s).exit = .done) :
    ∀ a ∈ xs, ∃ t, (f a t).exit = .done := by
  induction xs generalizing s with
  | nil => simp
  | cons a rest ih =>
    obtain ⟨ha, hrest⟩ := seq_eq_done.mp hd
    intro b hb
    rcases List.mem_cons.mp hb with rfl | hb
    · exact ⟨s, ha⟩
    · exact ih hrest b hb

-- on states with the property a loop of updates is one fold
theorem each_eq_foldl {g : σ → α → σ} {xs : List α}
    (hf : ∀ a ∈ xs, ∀ s, P s → f a s = ⟨g s a, .done⟩) (hg : ∀ s a, P s → P (g s a)) (hs : P s) :
    each f xs s = ⟨xs.foldl g s, .done⟩ := by
  induction xs generalizing s with
  | nil => rfl
  | cons a rest ih =>
    have ha := hf a (by simp) s hs
    have hd : (f a s).exit = .done := by rw [ha]
    rw [each, seq_of_done hd, ha]
    exact ih (fun b hb => hf b (List.mem_cons_of_mem _ hb)) (hg s a hs)

end Handler

end FogFlow
