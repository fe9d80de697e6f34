import FogFlow.Library.GoMap
import Mathlib.Data.List.Induction

namespace FogFlow.Named

variable {α : Type} {key : α → String} {merge : α → α → α} {n : String} {xs news : List α}

def named (key : α → String) (n : String) (xs : List α) : List α :=
  xs.filter (fun a => key a == n)

-- merges a record into the first one of its name, or appends it
def upsert (key : α → String) (merge : α → α → α) (new : α) : List α → List α
  | [] => [new]
  | a :: rest => if key a = key new then merge a new :: rest else a :: upsert key merge new rest

theorem mem_named {a : α} : a ∈ named key n xs ↔ a ∈ xs ∧ key a = n := by
  simp [named]

theorem named_append (xs ys : List α) : named key n (xs ++ ys) = named key n xs ++ named key n ys :=
  List.filter_append _ _

theorem named_cons (a : α) (xs : List α) :
    named key n (a :: xs) = if key a = n then a :: named key n xs else named key n xs := by
  simp [named, List.filter_cons]

theorem named_singleton (a : α) : named key n [a] = if key a = n then [a] else [] := by
  rw [named_cons]
  rfl

-- lists with the same sequence of names and the same records under each name
theorem eq_of_named {xs ys : List α} (hkeys : xs.map key = ys.map key)
    (h : ∀ n, named key n xs = named key n ys) : xs = ys := by
  induction xs generalizing ys with
  | nil => exact (List.map_eq_nil_iff.mp hkeys.symm).symm
  | cons a xs ih =>
    cases ys with
    | nil => cases hkeys
    | cons b ys =>
      obtain ⟨hab, hrest⟩ := List.cons.inj hkeys
      have hhead := h (key a)
      rw [named_cons, named_cons, if_pos rfl, if_pos hab.symm] at hhead
      obtain ⟨rfl, -⟩ := List.cons.inj hhead
      rw [ih hrest (fun n => ?_)]
      have hn := h n
      rw [named_cons, named_cons] at hn
      split_ifs at hn
      · exact (List.cons.inj hn).2
      · exact hn

theorem named_upsert_ne (hkey : ∀ a b, key (merge a b) = key a) {new : α} (h : key new ≠ n) :
    named key n (upsert key merge new xs) = named key n xs := by
  induction xs with
  | nil => rw [upsert, named_singleton, if_neg h]; rfl
  | cons a rest ih =>
    unfold upsert
    split_ifs with ha
    · have hne : key a ≠ n := ha ▸ h
      rw [named_cons, named_cons, hkey, if_neg hne, if_neg hne]
    · rw [named_cons, named_cons, ih]

theorem named_upsert_self (hkey : ∀ a b, key (merge a b) = key a) {new : α} (h : key new = n) :
    named key n (upsert key merge new xs) =
      match named key n xs with
      | [] => [new]
      | a :: rest => merge a new :: rest := by
  induction xs with
  | nil => rw [upsert, named_singleton, if_pos h]; rfl
  | cons a rest ih =>
    unfold upsert
    split_ifs with ha
    · rw [named_cons, named_cons, hkey, ha, if_pos h, if_pos h]
    · have hne : key a ≠ n := h ▸ ha
      rw [named_cons, named_cons, if_neg hne, if_neg hne, ih]

theorem named_foldl_upsert_nil (hkey : ∀ a b, key (merge a b) = key a)
    (h : named key n news = []) :
    named key n (news.foldl (fun xs a => upsert key merge a xs) xs) = named key n xs := by
  induction news generalizing xs with
  | nil => rfl
  | cons a news ih =>
    rw [named_cons] at h
    split_ifs at h with ha
    rw [List.foldl_cons, ih h, named_upsert_ne hkey ha]

-- the first record of the name stays in front and has taken over what the last one brings
theorem named_foldl_upsert (hkey : ∀ a b, key (merge a b) = key a)
    (hmerge : ∀ a b c, merge (merge a b) c = merge a c) (hself : ∀ a, merge a a = a) {last : α}
    (h : (named key n news).getLast? = some last) :
    ∃ first, (named key n xs ++ named key n news).head? = some first ∧
      named key n (news.foldl (fun xs a => upsert key merge a xs) xs) =
        merge first last :: (named key n xs).tail := by
  induction news using List.reverseRecOn generalizing last with
  | nil => simp [named] at h
  | append_singleton news a ih =>
    rw [List.foldl_append, List.foldl_cons, List.foldl_nil, named_append, named_singleton] at *
    by_cases ha : key a = n
    · rw [if_pos ha] at h ⊢
      obtain rfl : a = last := by simpa using h
      rw [named_upsert_self hkey ha]
      cases hlast : (named key n news).getLast? with
      | none =>
        rw [List.getLast?_eq_none_iff] at hlast
        rw [named_foldl_upsert_nil hkey hlast, hlast]
        cases named key n xs with
        | nil => exact ⟨a, rfl, by rw [hself]; rfl⟩
        | cons b rest => exact ⟨b, rfl, rfl⟩
      | some l =>
        obtain ⟨first, hfirst, heq⟩ := ih hlast
        refine ⟨first, ?_, by rw [heq]; dsimp only; rw [hmerge]⟩
        rw [← List.append_assoc, List.head?_append, hfirst]
        rfl
    · rw [if_neg ha, List.append_nil] at h ⊢
      rw [named_upsert_ne hkey ha]
      exact ih h

-- with one record of a name, merging what it already holds changes nothing
theorem upsert_eq_self {new a : α} (hnames : (xs.map key).Nodup) (ha : a ∈ xs)
    (hkey : key a = key new) (hmerge : merge a new = a) : upsert key merge new xs = xs := by
  induction xs with
  | nil => cases ha
  | cons b rest ih =>
    rw [List.map_cons, List.nodup_cons] at hnames
    rcases List.mem_cons.mp ha with rfl | hrest
    · rw [upsert, if_pos hkey, hmerge]
    · have hne : key b ≠ key new := by
        intro heq
        exact hnames.1 (List.mem_map.mpr ⟨a, hrest, hkey.trans heq.symm⟩)
      rw [upsert, if_neg hne, ih hnames.2 hrest]

theorem foldl_upsert_eq_self (hnames : (xs.map key).Nodup)
    (h : ∀ new ∈ news, ∃ a ∈ xs, key a = key new ∧ merge a new = a) :
    news.foldl (fun xs a => upsert key merge a xs) xs = xs := by
  induction news with
  | nil => rfl
  | cons new news ih =>
    obtain ⟨a, ha, hkey, hmerge⟩ := h new (List.mem_cons_self ..)
    rw [List.foldl_cons, upsert_eq_self hnames ha hkey hmerge]
    exact ih (fun b hb => h b (List.mem_cons_of_mem _ hb))

theorem get_foldl_set_val {V : Type} (key : α → String) (val : α → V) (m : GoMap V)
    (news : List α) :
    (news.foldl (fun m a => m.set (key a) (val a)) m).get n =
      (((named key n news).getLast?).map val).or (m.get n) := by
  induction news using List.reverseRecOn with
  | nil => rfl
  | append_singleton news a ih =>
    rw [List.foldl_append, List.foldl_cons, List.foldl_nil, GoMap.get_set, named_append,
      named_singleton, ih]
    by_cases ha : key a = n
    · simp [ha]
    · simp [ha, Ne.symm ha]

theorem get_foldl_set (key : α → String) (m : GoMap α) (news : List α) :
    (news.foldl (fun m a => m.set (key a) a) m).get n =
      ((named key n news).getLast?).or (m.get n) := by
  simpa using get_foldl_set_val key id m news

end FogFlow.Named
