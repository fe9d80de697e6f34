import Mathlib.Data.List.Nodup
import Mathlib.Data.List.Perm.Basic

namespace FogFlow.Pool

variable {α : Type} {p : α → Bool} {pool rest : List α} {a : α}

-- the calls in progress of a concurrent program: the schedule picks the one that runs next
def take (p : α → Bool) (pool : List α) : Option (α × List α) :=
  (pool.find? p).map (fun a => (a, pool.eraseP p))

theorem perm_eraseP (h : pool.find? p = some a) : pool.Perm (a :: pool.eraseP p) := by
  induction pool with
  | nil => simp at h
  | cons x xs ih =>
    cases hx : p x with
    | true =>
      obtain rfl : x = a := by simpa [List.find?_cons, hx] using h
      simp [hx]
    | false =>
      rw [List.find?_cons, hx] at h
      rw [List.eraseP_cons_of_neg (by simp [hx])]
      exact ((ih h).cons x).trans (List.Perm.swap a x _)

theorem take_perm (h : take p pool = some (a, rest)) : pool.Perm (a :: rest) := by
  obtain ⟨b, hb, he⟩ := Option.map_eq_some_iff.mp h
  obtain ⟨rfl, rfl⟩ := Prod.mk.inj he
  exact perm_eraseP hb

theorem take_sat (h : take p pool = some (a, rest)) : p a = true := by
  obtain ⟨b, hb, he⟩ := Option.map_eq_some_iff.mp h
  obtain ⟨rfl, -⟩ := Prod.mk.inj he
  exact List.find?_some hb

theorem mem_of_take (h : take p pool = some (a, rest)) : a ∈ pool :=
  (take_perm h).mem_iff.mpr List.mem_cons_self

theorem mem_of_mem_rest {x : α} (h : take p pool = some (a, rest)) (hx : x ∈ rest) : x ∈ pool :=
  (take_perm h).mem_iff.mpr (List.mem_cons_of_mem _ hx)

theorem count_of_take {β : Type} [DecidableEq β] (f : α → β) (h : take p pool = some (a, rest))
    (b : β) : (pool.map f).count b = (rest.map f).count b + if f a = b then 1 else 0 := by
  rw [((take_perm h).map f).count_eq, List.map_cons, List.count_cons]
  simp only [beq_iff_eq]

-- the one that runs stays in its place when it goes on, and leaves it when it is done
theorem split_of_getElem? {i : Nat} (h : pool[i]? = some a) :
    ∃ before after, before = pool.take i ∧ pool = before ++ a :: after ∧
      (∀ b, pool.set i b = before ++ b :: after) ∧ pool.eraseIdx i = before ++ after := by
  obtain ⟨hi, rfl⟩ := List.getElem?_eq_some_iff.mp h
  refine ⟨pool.take i, pool.drop (i + 1), rfl, ?_, fun b => ?_, ?_⟩
  · rw [List.getElem_cons_drop, List.take_append_drop]
  · exact List.set_eq_take_append_cons_drop.trans (by rw [if_pos hi])
  · exact List.eraseIdx_eq_take_drop_succ ..

theorem filterMap_set {β : Type} {f : α → Option β} {i : Nat} {b : α} (h : pool[i]? = some a)
    (hsame : f b = f a) : (pool.set i b).filterMap f = pool.filterMap f := by
  obtain ⟨before, after, -, hsplit, hset, -⟩ := split_of_getElem? h
  rw [hset, hsplit]
  simp [List.filterMap_cons, hsame]

theorem filterMap_eraseIdx {β : Type} {f : α → Option β} {i : Nat} (h : pool[i]? = some a)
    (hnone : f a = none) : (pool.eraseIdx i).filterMap f = pool.filterMap f := by
  obtain ⟨before, after, -, hsplit, -, herase⟩ := split_of_getElem? h
  rw [herase, hsplit]
  simp [hnone]

theorem mem_set_of_ne {i : Nat} {b x : α} (h : pool[i]? = some a) (ha : x ≠ a) (hb : x ≠ b) :
    x ∈ pool.set i b ↔ x ∈ pool := by
  obtain ⟨before, after, -, hsplit, hset, -⟩ := split_of_getElem? h
  rw [hset, hsplit]
  simp [ha, hb]

theorem mem_eraseIdx_of_ne {i : Nat} {x : α} (h : pool[i]? = some a) (ha : x ≠ a) :
    x ∈ pool.eraseIdx i ↔ x ∈ pool := by
  obtain ⟨before, after, -, hsplit, -, herase⟩ := split_of_getElem? h
  rw [herase, hsplit]
  simp [ha]

theorem countP_set {i : Nat} (h : pool[i]? = some a) (b : α) :
    (pool.set i b).countP p + (if p a then 1 else 0) =
      pool.countP p + (if p b then 1 else 0) := by
  obtain ⟨before, after, -, hsplit, hset, -⟩ := split_of_getElem? h
  rw [hset, hsplit]
  simp only [List.countP_append, List.countP_cons]
  omega

theorem countP_eraseIdx {i : Nat} (h : pool[i]? = some a) :
    (pool.eraseIdx i).countP p + (if p a then 1 else 0) = pool.countP p := by
  obtain ⟨before, after, -, hsplit, -, herase⟩ := split_of_getElem? h
  rw [herase, hsplit]
  simp only [List.countP_append, List.countP_cons]
  omega

-- the one that runs is replaced by what is left of it
def replace (pool : List α) (i : Nat) (next : List α) : List α :=
  pool.take i ++ next ++ pool.drop (i + 1)

theorem replace_singleton {i : Nat} (h : pool[i]? = some a) (b : α) :
    replace pool i [b] = pool.set i b := by
  obtain ⟨hi, -⟩ := List.getElem?_eq_some_iff.mp h
  rw [List.set_eq_take_append_cons_drop, if_pos hi, replace, List.append_assoc,
    List.singleton_append]

theorem replace_self {i : Nat} (h : pool[i]? = some a) : replace pool i [a] = pool := by
  obtain ⟨hi, rfl⟩ := List.getElem?_eq_some_iff.mp h
  rw [replace_singleton h, List.set_getElem_self]

theorem replace_nil (pool : List α) (i : Nat) : replace pool i [] = pool.eraseIdx i := by
  rw [replace, List.append_nil, List.eraseIdx_eq_take_drop_succ]

theorem map_replace {β : Type} (f : α → β) (pool : List α) (i : Nat) (next : List α) :
    (replace pool i next).map f = replace (pool.map f) i (next.map f) := by
  simp [replace]

theorem mem_replace {next : List α} {i : Nat} (h : a ∈ replace pool i next) :
    a ∈ pool ∨ a ∈ next := by
  simp only [replace, List.mem_append] at h
  rcases h with (h | h) | h
  · exact Or.inl (List.mem_of_mem_take h)
  · exact Or.inr h
  · exact Or.inl (List.mem_of_mem_drop h)

theorem mem_replace_of_mem {b : α} {next : List α} {i : Nat} (h : pool[i]? = some a)
    (hb : b ∈ pool) : b = a ∨ b ∈ replace pool i next := by
  obtain ⟨hi, rfl⟩ := List.getElem?_eq_some_iff.mp h
  rw [← List.take_append_drop i pool, ← List.getElem_cons_drop (h := hi)] at hb
  simp only [replace, List.mem_append, List.mem_cons] at hb ⊢
  tauto

theorem mem_replace_of_next {next : List α} {i : Nat} (h : a ∈ next) : a ∈ replace pool i next := by
  simp [replace, h]

theorem perm_flatMap_replace {β : Type} (f : α → List β) {i : Nat} (h : pool[i]? = some a)
    (next : List α) :
    (f a ++ (replace pool i next).flatMap f).Perm (next.flatMap f ++ pool.flatMap f) := by
  classical
  obtain ⟨hi, rfl⟩ := List.getElem?_eq_some_iff.mp h
  have hsplit : pool = pool.take i ++ pool[i] :: pool.drop (i + 1) := by
    rw [List.getElem_cons_drop, List.take_append_drop]
  have hpool := congrArg (List.flatMap f) hsplit
  rw [List.flatMap_append, List.flatMap_cons] at hpool
  rw [hpool, replace, List.flatMap_append, List.flatMap_append]
  apply List.perm_iff_count.mpr
  intro b
  simp only [List.count_append]
  omega

-- what the pool holds without repetition has exactly one holder
theorem countP_holders {β : Type} [DecidableEq β] {f : α → List β}
    (h : (pool.flatMap f).Nodup) (b : β) :
    pool.countP (fun a => (f a).contains b) = (pool.flatMap f).count b := by
  induction pool with
  | nil => rfl
  | cons a pool ih =>
    rw [List.flatMap_cons] at h ⊢
    obtain ⟨ha, hrest, -⟩ := List.nodup_append.mp h
    rw [List.countP_cons, ih hrest, List.count_append, Nat.add_comm]
    congr 1
    rw [ha.count]
    simp

theorem countP_replace {i : Nat} (h : pool[i]? = some a) (next : List α) :
    (replace pool i next).countP p + (if p a then 1 else 0) = pool.countP p + next.countP p := by
  obtain ⟨hi, rfl⟩ := List.getElem?_eq_some_iff.mp h
  have hsplit : pool = pool.take i ++ pool[i] :: pool.drop (i + 1) := by
    rw [List.getElem_cons_drop, List.take_append_drop]
  have hcount := congrArg (List.countP p) hsplit
  rw [List.countP_append, List.countP_cons] at hcount
  simp only [replace, List.countP_append]
  omega

end FogFlow.Pool
