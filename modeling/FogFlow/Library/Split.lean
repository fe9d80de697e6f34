import Mathlib.Data.List.Basic

namespace FogFlow.Split

variable {sep s : List Char}

-- strings.Split for a separator that is not empty: skip counts down the rest of a separator found
def splitFrom (sep : List Char) : Nat → List Char → List Char → List (List Char)
  | _, field, [] => [field.reverse]
  | skip + 1, field, _ :: s => splitFrom sep skip field s
  | 0, field, c :: s =>
      if sep.isPrefixOf (c :: s) then field.reverse :: splitFrom sep (sep.length - 1) [] s
      else splitFrom sep 0 (c :: field) s

def split (sep s : List Char) : List (List Char) := splitFrom sep 0 [] s

theorem splitFrom_ne_nil (skip : Nat) (field : List Char) : splitFrom sep skip field s ≠ [] := by
  induction s generalizing skip field with
  | nil => simp [splitFrom]
  | cons c s ih =>
    cases skip with
    | zero =>
      rw [splitFrom]
      split_ifs
      · simp
      · exact ih 0 (c :: field)
    | succ skip => exact ih skip field

theorem splitFrom_eq_singleton {field x : List Char} (h : splitFrom sep 0 field s = [x]) :
    x = field.reverse ++ s := by
  induction s generalizing field with
  | nil => simpa [splitFrom] using h.symm
  | cons c s ih =>
    rw [splitFrom] at h
    split_ifs at h
    · exact absurd (List.cons.inj h).2 (splitFrom_ne_nil _ _)
    · simpa using ih h

theorem split_ne_nil : split sep s ≠ [] := splitFrom_ne_nil 0 []

theorem split_eq_singleton {x : List Char} (h : split sep s = [x]) : x = s := by
  simpa using splitFrom_eq_singleton h

theorem splitFrom_of_notMem {c : Char} {field : List Char} (h : c ∉ s) :
    splitFrom [c] 0 field s = [field.reverse ++ s] := by
  induction s generalizing field with
  | nil => simp [splitFrom]
  | cons d s ih =>
    rw [List.mem_cons, not_or] at h
    rw [splitFrom, if_neg (by simpa using h.1), ih h.2]
    simp

theorem one_lt_length_splitFrom {c : Char} {field : List Char} (h : c ∈ s) :
    1 < (splitFrom [c] 0 field s).length := by
  induction s generalizing field with
  | nil => cases h
  | cons d s ih =>
    rw [splitFrom]
    split_ifs with hd
    · have hne : splitFrom [c] 0 [] s ≠ [] := splitFrom_ne_nil 0 []
      have hpos := List.length_pos_iff.mpr hne
      simpa using hpos
    · have hdc : c ≠ d := by simpa using hd
      exact ih ((List.mem_cons.mp h).resolve_left hdc)

-- no field holds the separator
theorem notMem_of_mem_splitFrom {c : Char} {field x : List Char} (hfield : c ∉ field)
    (h : x ∈ splitFrom [c] 0 field s) : c ∉ x := by
  induction s generalizing field with
  | nil =>
    rw [splitFrom, List.mem_singleton] at h
    rw [h, List.mem_reverse]
    exact hfield
  | cons d s ih =>
    rw [splitFrom] at h
    split_ifs at h with hd
    · rcases List.mem_cons.mp h with rfl | hrest
      · rwa [List.mem_reverse]
      · exact ih List.not_mem_nil hrest
    · have hdc : c ≠ d := by simpa using hd
      refine ih (fun hmem => ?_) h
      rcases List.mem_cons.mp hmem with heq | hmem
      · exact hdc heq
      · exact hfield hmem

theorem notMem_of_mem_split {c : Char} {x : List Char} (h : x ∈ split [c] s) : c ∉ x :=
  notMem_of_mem_splitFrom List.not_mem_nil h

-- a second field is there iff the separator is
theorem one_lt_length_split {c : Char} : 1 < (split [c] s).length ↔ c ∈ s := by
  constructor
  · intro hlen
    by_contra hc
    rw [split, splitFrom_of_notMem hc] at hlen
    simp at hlen
  · exact one_lt_length_splitFrom

end FogFlow.Split
