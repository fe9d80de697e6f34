import Mathlib.Data.List.Induction
import Mathlib.Data.List.Perm.Basic

namespace FogFlow.Cells

variable {α : Type} {cells : List α} {pointers : List Nat}

-- a pointer is the number of the cell it leads to
def load (cells : List α) (pointers : List Nat) : List α := pointers.filterMap (cells[·]?)

def Allocated (cells : List α) (pointers : List Nat) : Prop := ∀ a ∈ pointers, a < cells.length

def new (cells as : List α) : List α × List Nat :=
  (cells ++ as, (List.range as.length).map (cells.length + ·))

-- a range loop before Go 1.22 has one variable: every round writes the cell that all the
-- addresses taken in the loop lead to
def addressesOf (zero : α) (cells as : List α) : List α × List Nat :=
  as.foldl (fun r a => (r.1.set cells.length a, r.2 ++ [cells.length])) (cells ++ [zero], [])

theorem addressesOf_eq (zero : α) (cells as : List α) : addressesOf zero cells as =
    (cells ++ [as.getLast?.getD zero], List.replicate as.length cells.length) := by
  induction as using List.reverseRecOn with
  | nil => rfl
  | append_singleton as a ih =>
    rw [addressesOf, List.foldl_append, ← addressesOf, ih]
    simp [List.replicate_succ']

@[simp] theorem load_nil (cells : List α) : load cells [] = [] := rfl

theorem load_append (cells : List α) (ps qs : List Nat) :
    load cells (ps ++ qs) = load cells ps ++ load cells qs :=
  List.filterMap_append

theorem allocated_nil (cells : List α) : Allocated cells [] := by simp [Allocated]

theorem Allocated.append {qs : List Nat} (h : Allocated cells pointers) (hq : Allocated cells qs) :
    Allocated cells (pointers ++ qs) := by
  intro a ha
  rcases List.mem_append.mp ha with ha | ha
  · exact h a ha
  · exact hq a ha

theorem Allocated.mono {more : List α} (h : Allocated cells pointers) (hp : cells <+: more) :
    Allocated more pointers :=
  fun a ha => Nat.lt_of_lt_of_le (h a ha) hp.length_le

theorem load_mono {more : List α} (h : Allocated cells pointers) (hp : cells <+: more) :
    load more pointers = load cells pointers := by
  obtain ⟨rest, rfl⟩ := hp
  refine List.filterMap_congr (fun a ha => ?_)
  exact List.getElem?_append_left (h a ha)

theorem length_load (h : Allocated cells pointers) :
    (load cells pointers).length = pointers.length := by
  induction pointers with
  | nil => rfl
  | cons a as ih =>
    have hlt : a < cells.length := h a List.mem_cons_self
    have ih := ih (fun b hb => h b (List.mem_cons_of_mem _ hb))
    simpa [load, List.filterMap_cons, List.getElem?_eq_getElem hlt] using ih

theorem load_eq_nil_iff (h : Allocated cells pointers) : load cells pointers = [] ↔ pointers = [] := by
  rw [← List.length_eq_zero_iff, length_load h, List.length_eq_zero_iff]

theorem prefix_new (cells as : List α) : cells <+: (new cells as).1 := List.prefix_append _ _

theorem allocated_new (cells as : List α) : Allocated (new cells as).1 (new cells as).2 := by
  intro a ha
  obtain ⟨i, hi, rfl⟩ := List.mem_map.mp ha
  have hlt := List.mem_range.mp hi
  simp only [new, List.length_append]
  omega

theorem load_new (cells as : List α) : load (new cells as).1 (new cells as).2 = as := by
  induction as using List.reverseRecOn with
  | nil => rfl
  | append_singleton as a ih =>
    have hold : Allocated (cells ++ as) (new cells as).2 := allocated_new cells as
    have hnew : new cells (as ++ [a]) =
        ((cells ++ as) ++ [a], (new cells as).2 ++ [(cells ++ as).length]) := by
      simp [new, List.range_succ]
    rw [hnew, load_append, load_mono hold (List.prefix_append _ _)]
    exact congrArg₂ (· ++ ·) ih (by simp [load])

theorem new_eq_range' (cells as : List α) :
    new cells as = (cells ++ as, List.range' cells.length as.length) := by
  rw [new, List.range'_eq_map_range]

theorem getElem?_mono {more : List α} {p : Nat} {a : α} (h : cells[p]? = some a)
    (hp : cells <+: more) : more[p]? = some a := by
  obtain ⟨rest, rfl⟩ := hp
  rw [List.getElem?_append_left (List.getElem?_eq_some_iff.mp h).1, h]

theorem modify_last (cells : List α) (a : α) (f : α → α) :
    (cells ++ [a]).modify cells.length f = cells ++ [f a] := by
  induction cells with
  | nil => rfl
  | cons b cells ih =>
    rw [List.cons_append, List.length_cons, List.modify_succ_cons, ih, List.cons_append]

theorem prefix_addressesOf (zero : α) (cells as : List α) :
    cells <+: (addressesOf zero cells as).1 := by
  rw [addressesOf_eq]
  exact List.prefix_append _ _

theorem allocated_addressesOf (zero : α) (cells as : List α) :
    Allocated (addressesOf zero cells as).1 (addressesOf zero cells as).2 := by
  intro a ha
  rw [addressesOf_eq] at ha ⊢
  obtain rfl := List.eq_of_mem_replicate ha
  simp

theorem load_addressesOf (zero : α) (cells as : List α) :
    load (addressesOf zero cells as).1 (addressesOf zero cells as).2 =
      List.replicate as.length (as.getLast?.getD zero) := by
  rw [addressesOf_eq, load, List.filterMap_replicate]
  simp

theorem replicate_perm_iff {as : List α} {a : α} (ha : a ∈ as) :
    (List.replicate as.length a).Perm as ↔ ∀ b ∈ as, ∀ c ∈ as, b = c := by
  constructor
  · intro h b hb c hc
    rw [List.eq_of_mem_replicate (h.mem_iff.mpr hb), List.eq_of_mem_replicate (h.mem_iff.mpr hc)]
  · intro h
    rw [← List.eq_replicate_of_mem (fun b hb => h b hb a ha)]

end FogFlow.Cells
