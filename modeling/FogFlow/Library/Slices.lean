import Mathlib.Data.List.Basic

namespace FogFlow.Slices

variable {α : Type}

-- the arrays behind all slices; the length of an array is its capacity
abbrev Arrays (α : Type) := List (List α)

structure Slice where
  array : Nat
  len : Nat
deriving DecidableEq, Repr

def backing (arrays : Arrays α) (s : Slice) : List α := arrays[s.array]?.getD []

def contents (arrays : Arrays α) (s : Slice) : List α := (backing arrays s).take s.len

-- what a new array has beyond its contents is left to the runtime
def make (arrays : Arrays α) (xs spare : List α) : Arrays α × Slice :=
  (arrays ++ [xs ++ spare], ⟨arrays.length, xs.length⟩)

def overwrite (ys : List α) (i : Nat) (xs : List α) : List α :=
  ys.take i ++ xs ++ ys.drop (i + xs.length)

def append (spare : List α) (arrays : Arrays α) (s : Slice) (xs : List α) : Arrays α × Slice :=
  if s.len + xs.length ≤ (backing arrays s).length then
    (arrays.set s.array (overwrite (backing arrays s) s.len xs), ⟨s.array, s.len + xs.length⟩)
  else make arrays (contents arrays s ++ xs) spare

-- the loop reads each element when it gets there, from the array it is writing to
def filterStep (keep : α → Bool) (spare : List α) (s : Slice) (r : Arrays α × Slice) (i : Nat) :
    Arrays α × Slice :=
  match (backing r.1 s)[i]? with
  | some x => if keep x then append spare r.1 r.2 [x] else r
  | none => r

def filterInPlace (keep : α → Bool) (spare : List α) (arrays : Arrays α) (s : Slice) :
    Arrays α × Slice :=
  (List.range s.len).foldl (filterStep keep spare s) (arrays, ⟨s.array, 0⟩)

structure Valid (arrays : Arrays α) (s : Slice) : Prop where
  array : s.array < arrays.length
  len : s.len ≤ (backing arrays s).length

variable {arrays : Arrays α} {s t : Slice} {keep : α → Bool} {spare xs : List α}

@[simp] theorem backing_set (h : s.array < arrays.length) (ys : List α) (n : Nat) :
    backing (arrays.set s.array ys) ⟨s.array, n⟩ = ys := by
  simp [backing, h]

theorem backing_set_ne (h : s.array ≠ t.array) (ys : List α) :
    backing (arrays.set s.array ys) t = backing arrays t := by
  simp [backing, h]

theorem contents_set_ne (h : s.array ≠ t.array) (ys : List α) :
    contents (arrays.set s.array ys) t = contents arrays t := by
  rw [contents, backing_set_ne h, contents]

theorem Valid.set_ne (ht : Valid arrays t) (h : s.array ≠ t.array) (ys : List α) :
    Valid (arrays.set s.array ys) t :=
  ⟨by simpa using ht.array, by simpa [backing_set_ne h] using ht.len⟩

theorem backing_make_old (h : t.array < arrays.length) (xs spare : List α) :
    backing (make arrays xs spare).1 t = backing arrays t := by
  simp [backing, make, List.getElem?_append_left h]

theorem contents_make_old (h : t.array < arrays.length) (xs spare : List α) :
    contents (make arrays xs spare).1 t = contents arrays t := by
  rw [contents, backing_make_old h, contents]

theorem Valid.make (ht : Valid arrays t) (xs spare : List α) :
    Valid (make arrays xs spare).1 t := by
  refine ⟨?_, by simpa [backing_make_old ht.array] using ht.len⟩
  have hlt := ht.array
  simp only [Slices.make, List.length_append, List.length_singleton]
  omega

theorem backing_make (arrays : Arrays α) (xs spare : List α) :
    backing (make arrays xs spare).1 (make arrays xs spare).2 = xs ++ spare := by
  simp [backing, make]

@[simp] theorem contents_make (arrays : Arrays α) (xs spare : List α) :
    contents (make arrays xs spare).1 (make arrays xs spare).2 = xs := by
  rw [contents, backing_make]
  simp [make]

theorem valid_make (arrays : Arrays α) (xs spare : List α) :
    Valid (make arrays xs spare).1 (make arrays xs spare).2 := by
  refine ⟨by simp [make], ?_⟩
  rw [backing_make]
  simp [make]

theorem overwrite_append (ys rest xs : List α) :
    overwrite (ys ++ rest) ys.length xs = ys ++ (xs ++ rest.drop xs.length) := by
  simp [overwrite, List.drop_append]

-- kept elements, then leftovers of what the loop has passed, then what it has not read yet
theorem filterInPlace_range (hs : Valid arrays s) (keep : α → Bool) (spare : List α) {k : Nat}
    (hk : k ≤ s.len) :
    ∃ kept mid, kept = ((backing arrays s).take k).filter keep ∧
      kept.length + mid.length = k ∧
      (List.range k).foldl (filterStep keep spare s) (arrays, ⟨s.array, 0⟩) =
        (arrays.set s.array (kept ++ (mid ++ (backing arrays s).drop k)),
          ⟨s.array, kept.length⟩) := by
  induction k with
  | zero =>
    refine ⟨[], [], by simp, rfl, ?_⟩
    have hself : arrays.set s.array (backing arrays s) = arrays := by
      simp [backing, hs.array]
    simp [hself]
  | succ k ih =>
    obtain ⟨kept, mid, hkept, hlen, hfold⟩ := ih (by omega)
    have hlt : k < (backing arrays s).length := Nat.lt_of_lt_of_le hk hs.len
    have hdrop := List.drop_eq_getElem_cons hlt
    have htake : (backing arrays s).take (k + 1) =
        (backing arrays s).take k ++ [(backing arrays s)[k]] := by
      rw [List.take_succ_eq_append_getElem hlt]
    generalize (backing arrays s)[k] = x at hdrop htake
    have hread : (backing (arrays.set s.array (kept ++ (mid ++ (backing arrays s).drop k)))
        s)[k]? = some x := by
      have hback := backing_set hs.array (kept ++ (mid ++ (backing arrays s).drop k)) s.len
      rw [show s = ⟨s.array, s.len⟩ from rfl, hback, hdrop]
      rw [List.getElem?_append_right (by omega), List.getElem?_append_right (by omega)]
      simp [show k - kept.length - mid.length = 0 by omega]
    rw [List.range_succ, List.foldl_append, hfold, List.foldl_cons, List.foldl_nil, filterStep,
      hread, htake, List.filter_append, ← hkept]
    by_cases hx : keep x = true
    · refine ⟨kept ++ [x], (mid ++ [x]).drop 1, ?_, ?_, ?_⟩
      · simp [hx]
      · simp
        omega
      · have hroom : (⟨s.array, kept.length⟩ : Slice).len + [x].length ≤
            (backing (arrays.set s.array (kept ++ (mid ++ (backing arrays s).drop k)))
              ⟨s.array, kept.length⟩).length := by
          rw [backing_set hs.array, hdrop]
          simp
          omega
        have hshift : (mid ++ (backing arrays s).drop k).drop 1 =
            (mid ++ [x]).drop 1 ++ (backing arrays s).drop (k + 1) := by
          have hone : 1 ≤ (mid ++ [x]).length := by simp
          rw [← List.drop_append_of_le_length hone, hdrop, List.append_assoc]
          rfl
        simp only [hx, if_true]
        rw [append, if_pos hroom, backing_set hs.array, overwrite_append, List.set_set]
        simp only [List.length_singleton] at hshift ⊢
        rw [hshift]
        simp
    · refine ⟨kept, mid ++ [x], ?_, ?_, ?_⟩
      · simp [hx]
      · simp
        omega
      · simp [hx, hdrop]

-- s' is s or new, and no slice of another array has changed
structure Writes (arrays arrays' : Arrays α) (s s' : Slice) : Prop where
  grows : arrays.length ≤ arrays'.length
  valid : Valid arrays' s'
  owner : s'.array = s.array ∨ arrays.length ≤ s'.array
  others : ∀ t, Valid arrays t → t.array ≠ s.array →
    Valid arrays' t ∧ contents arrays' t = contents arrays t

theorem Writes.trans {arrays' arrays'' : Arrays α} {s' s'' : Slice}
    (h : Writes arrays arrays' s s') (h' : Writes arrays' arrays'' s' s'') :
    Writes arrays arrays'' s s'' := by
  refine ⟨Nat.le_trans h.grows h'.grows, h'.valid, ?_, fun t ht hne => ?_⟩
  · rcases h'.owner with he | hnew
    · rw [he]
      exact h.owner
    · exact Or.inr (Nat.le_trans h.grows hnew)
  · obtain ⟨hvalid, hcontents⟩ := h.others t ht hne
    have hne' : t.array ≠ s'.array := by
      have hlt := ht.array
      rcases h.owner with he | hnew
      · rwa [he]
      · omega
    obtain ⟨hvalid', hcontents'⟩ := h'.others t hvalid hne'
    exact ⟨hvalid', hcontents'.trans hcontents⟩

theorem writes_set (hs : Valid arrays s) {ys : List α} {n : Nat} (hn : n ≤ ys.length) :
    Writes arrays (arrays.set s.array ys) s ⟨s.array, n⟩ := by
  refine ⟨by simp, ⟨by simpa using hs.array, by rwa [backing_set hs.array]⟩, Or.inl rfl,
    fun t ht hne => ?_⟩
  exact ⟨ht.set_ne (Ne.symm hne) ys, contents_set_ne (Ne.symm hne) ys⟩

theorem writes_make (arrays : Arrays α) (s : Slice) (xs spare : List α) :
    Writes arrays (make arrays xs spare).1 s (make arrays xs spare).2 :=
  ⟨by simp [make], valid_make arrays xs spare, Or.inr (Nat.le_refl _),
    fun _ ht _ => ⟨ht.make xs spare, contents_make_old ht.array xs spare⟩⟩

theorem filterInPlace_spec (hs : Valid arrays s) (keep : α → Bool) (spare : List α) :
    contents (filterInPlace keep spare arrays s).1 (filterInPlace keep spare arrays s).2 =
        (contents arrays s).filter keep ∧
      Writes arrays (filterInPlace keep spare arrays s).1 s
        (filterInPlace keep spare arrays s).2 := by
  obtain ⟨kept, mid, hkept, hlen, hfold⟩ :=
    filterInPlace_range hs keep spare (Nat.le_refl s.len)
  rw [filterInPlace, hfold]
  constructor
  · rw [contents, backing_set hs.array, List.take_left, hkept]
    rfl
  · exact writes_set hs (by simp)

theorem append_spec (hs : Valid arrays s) (spare xs : List α) :
    contents (append spare arrays s xs).1 (append spare arrays s xs).2 =
        contents arrays s ++ xs ∧
      Writes arrays (append spare arrays s xs).1 s (append spare arrays s xs).2 := by
  unfold append
  split_ifs with hroom
  · have hlen : (contents arrays s ++ xs).length = s.len + xs.length := by
      have hle := hs.len
      simp [contents, hle]
    have hsplit : overwrite (backing arrays s) s.len xs =
        contents arrays s ++ xs ++ (backing arrays s).drop (s.len + xs.length) := rfl
    rw [hsplit]
    constructor
    · rw [contents, backing_set hs.array, ← hlen, List.take_left]
    · refine writes_set hs ?_
      rw [List.length_append, hlen]
      omega
  · exact ⟨contents_make _ _ _, writes_make _ _ _ _⟩

end FogFlow.Slices
