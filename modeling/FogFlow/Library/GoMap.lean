import Mathlib.Data.List.AList
import Mathlib.Data.List.Sort
import Mathlib.Data.List.Induction

namespace FogFlow

abbrev GoMap (V : Type) := AList (fun _ : String => V)

namespace GoMap

variable {V : Type}

abbrev Entry (V : Type) := Sigma (fun _ : String => V)

def get (m : GoMap V) (k : String) : Option V := AList.lookup k m

def set (m : GoMap V) (k : String) (v : V) : GoMap V := AList.insert k v m

def delete (m : GoMap V) (k : String) : GoMap V := AList.erase k m

def values (m : GoMap V) : List V := m.entries.map (fun e => e.2)

-- reading a missing key of a map whose values are slices yields the nil slice
def slice (m : GoMap (List V)) (k : String) : List V := (m.get k).getD []

def mapVals (f : V → V) (m : GoMap V) : GoMap V where
  entries := m.entries.map (fun e => ⟨e.1, f e.2⟩)
  nodupKeys := by
    have h := m.nodupKeys
    simpa only [List.NodupKeys, List.keys, List.map_map, Function.comp_def] using h

def map {W : Type} (f : V → W) (m : GoMap V) : GoMap W where
  entries := m.entries.map (fun e => ⟨e.1, f e.2⟩)
  nodupKeys := by
    have h := m.nodupKeys
    simpa only [List.NodupKeys, List.keys, List.map_map, Function.comp_def] using h

-- the iteration order of a Go map is unspecified: each loop is given its own ranking of the keys
def range (rank : String → Nat) (m : GoMap V) : List (Entry V) :=
  m.entries.insertionSort (fun a b => rank a.1 ≤ rank b.1)

@[simp] theorem get_empty (k : String) : (∅ : GoMap V).get k = none := rfl

theorem get_set (m : GoMap V) (k k' : String) (v : V) :
    (m.set k v).get k' = if k' = k then some v else m.get k' := by
  split_ifs with h
  · subst h
    exact AList.lookup_insert m
  · exact AList.lookup_insert_ne h

@[simp] theorem get_set_self (m : GoMap V) (k : String) (v : V) : (m.set k v).get k = some v := by
  simp [get_set]

theorem get_set_ne (m : GoMap V) {k k' : String} (v : V) (h : k' ≠ k) :
    (m.set k v).get k' = m.get k' := by
  simp [get_set, h]

theorem get_delete (m : GoMap V) (k k' : String) :
    (m.delete k).get k' = if k' = k then none else m.get k' := by
  split_ifs with h
  · subst h
    exact AList.lookup_erase k' m
  · exact AList.lookup_erase_ne h

theorem get_delete_ne (m : GoMap V) {k k' : String} (h : k' ≠ k) :
    (m.delete k).get k' = m.get k' := by
  rw [get_delete, if_neg h]

theorem get_of_get_delete {m : GoMap V} {k k' : String} {v : V}
    (h : (m.delete k).get k' = some v) : k' ≠ k ∧ m.get k' = some v := by
  rw [get_delete] at h
  split_ifs at h with hk
  exact ⟨hk, h⟩

theorem mem_entries {m : GoMap V} {k : String} {v : V} :
    (⟨k, v⟩ : Entry V) ∈ m.entries ↔ m.get k = some v :=
  AList.mem_lookup_iff.symm

theorem range_perm (rank : String → Nat) (m : GoMap V) : (m.range rank).Perm m.entries :=
  List.perm_insertionSort _ _

@[simp] theorem mem_range {rank : String → Nat} {m : GoMap V} {k : String} {v : V} :
    (⟨k, v⟩ : Entry V) ∈ m.range rank ↔ m.get k = some v :=
  (range_perm rank m).mem_iff.trans mem_entries

theorem entries_perm {m m' : GoMap V} (h : ∀ k, m.get k = m'.get k) :
    m.entries.Perm m'.entries := by
  refine List.lookup_ext m.nodupKeys m'.nodupKeys (fun k v => ?_)
  have hlookup : List.dlookup k m.entries = List.dlookup k m'.entries := h k
  rw [hlookup]

theorem range_keys_nodup (rank : String → Nat) (m : GoMap V) :
    ((m.range rank).map (fun e => e.1)).Nodup :=
  ((range_perm rank m).map _).nodup_iff.mpr m.nodupKeys

theorem range_pairwise (rank : String → Nat) (m : GoMap V) :
    (m.range rank).Pairwise (fun a b => a.1 ≠ b.1) :=
  List.pairwise_map.mp (range_keys_nodup rank m)

-- some order visits a given entry first
theorem range_starting {m : GoMap V} {k : String} {v : V} (hk : m.get k = some v) :
    ∃ rest, m.range (fun k' => if k' = k then 0 else 1) = ⟨k, v⟩ :: rest := by
  have hmem : (⟨k, v⟩ : Entry V) ∈ m.range (fun k' => if k' = k then 0 else 1) := mem_range.mpr hk
  have hsorted : (m.range (fun k' => if k' = k then 0 else 1)).Pairwise
      (fun a b => (if a.1 = k then 0 else 1) ≤ if b.1 = k then 0 else 1) :=
    List.pairwise_insertionSort _ _
  have hkeys := range_pairwise (fun k' => if k' = k then 0 else 1) m
  obtain ⟨pre, post, hsplit⟩ := List.append_of_mem hmem
  rw [hsplit] at hsorted hkeys ⊢
  have hpre : pre = [] := by
    refine List.eq_nil_iff_forall_not_mem.mpr (fun e he => ?_)
    have hle := (List.pairwise_append.mp hsorted).2.2 e he ⟨k, v⟩ List.mem_cons_self
    have hne := (List.pairwise_append.mp hkeys).2.2 e he ⟨k, v⟩ List.mem_cons_self
    rw [if_neg hne, if_pos rfl] at hle
    omega
  exact ⟨post, by rw [hpre, List.nil_append]⟩

-- some order visits a given entry last
theorem range_ending {m : GoMap V} {k : String} {v : V} (hk : m.get k = some v) :
    ∃ rest, m.range (fun k' => if k' = k then 1 else 0) = rest ++ [⟨k, v⟩] := by
  have hmem : (⟨k, v⟩ : Entry V) ∈ m.range (fun k' => if k' = k then 1 else 0) := mem_range.mpr hk
  have hsorted : (m.range (fun k' => if k' = k then 1 else 0)).Pairwise
      (fun a b => (if a.1 = k then 1 else 0) ≤ if b.1 = k then 1 else 0) :=
    List.pairwise_insertionSort _ _
  have hkeys := range_pairwise (fun k' => if k' = k then 1 else 0) m
  obtain ⟨pre, post, hsplit⟩ := List.append_of_mem hmem
  rw [hsplit] at hsorted hkeys ⊢
  obtain ⟨-, hsorted, -⟩ := List.pairwise_append.mp hsorted
  obtain ⟨-, hkeys, -⟩ := List.pairwise_append.mp hkeys
  have hpost : post = [] := by
    refine List.eq_nil_iff_forall_not_mem.mpr (fun e he => ?_)
    have hle := (List.pairwise_cons.mp hsorted).1 e he
    have hne : e.1 ≠ k := ((List.pairwise_cons.mp hkeys).1 e he).symm
    rw [if_pos rfl, if_neg hne] at hle
    omega
  exact ⟨pre, by rw [hpost]⟩

theorem get_foldl_set_entries {es : List (Entry V)} (hkeys : (es.map (fun e => e.1)).Nodup)
    {k : String} {v : V} :
    (es.foldl (fun m e => m.set e.1 e.2) (∅ : GoMap V)).get k = some v ↔ ⟨k, v⟩ ∈ es := by
  induction es using List.reverseRecOn with
  | nil => simp
  | append_singleton es e ih =>
    rw [List.map_append, List.map_singleton, List.nodup_append] at hkeys
    rw [List.foldl_append, List.foldl_cons, List.foldl_nil, get_set, List.mem_append,
      List.mem_singleton]
    split_ifs with hk
    · subst hk
      have hno : (⟨e.1, v⟩ : Entry V) ∉ es := fun hmem =>
        hkeys.2.2 e.1 (List.mem_map.mpr ⟨_, hmem, rfl⟩) e.1 (List.mem_singleton_self _) rfl
      rw [or_iff_right hno, Option.some.injEq]
      exact ⟨fun h => by rw [← h], fun h => by rw [← h]⟩
    · have hne : (⟨k, v⟩ : Entry V) ≠ e := fun h => hk (congrArg Sigma.fst h)
      rw [ih hkeys.1, or_iff_left hne]

-- a loop over a map that stores every entry copies it
theorem get_copy (rank : String → Nat) (m : GoMap V) (k : String) :
    ((m.range rank).foldl (fun copy e => copy.set e.1 e.2) (∅ : GoMap V)).get k = m.get k := by
  refine Option.ext (fun v => ?_)
  rw [get_foldl_set_entries (range_keys_nodup rank m), mem_range]

theorem range_eq_singleton {m : GoMap V} {k : String} {v : V} (hk : m.get k = some v)
    (hother : ∀ k', k' ≠ k → m.get k' = none) (rank : String → Nat) :
    m.range rank = [⟨k, v⟩] := by
  have hperm : m.entries.Perm ((∅ : GoMap V).set k v).entries := by
    refine entries_perm (fun k' => ?_)
    rw [get_set]
    split_ifs with he
    · rw [he, hk]
    · exact hother k' he
  exact List.perm_singleton.mp ((range_perm rank m).trans hperm)

theorem mem_values {m : GoMap V} {v : V} : v ∈ m.values ↔ ∃ k, m.get k = some v := by
  simp only [values, List.mem_map]
  constructor
  · rintro ⟨⟨k, v⟩, h, rfl⟩
    exact ⟨k, mem_entries.mp h⟩
  · rintro ⟨k, h⟩
    exact ⟨⟨k, v⟩, mem_entries.mpr h, rfl⟩

@[simp] theorem get_map {W : Type} (f : V → W) (m : GoMap V) (k : String) :
    (m.map f).get k = (m.get k).map f := by
  apply Option.ext
  intro w
  rw [← mem_entries]
  simp only [map, List.mem_map, Option.map_eq_some_iff]
  constructor
  · rintro ⟨⟨k', v⟩, h, he⟩
    obtain ⟨rfl, hv⟩ := Sigma.mk.inj_iff.mp he
    exact ⟨v, mem_entries.mp h, eq_of_heq hv⟩
  · rintro ⟨v, h, rfl⟩
    exact ⟨⟨k, v⟩, mem_entries.mpr h, rfl⟩

@[simp] theorem get_mapVals (f : V → V) (m : GoMap V) (k : String) :
    (m.mapVals f).get k = (m.get k).map f :=
  get_map f m k

@[simp] theorem mapVals_id (m : GoMap V) : m.mapVals id = m :=
  AList.ext (List.map_id _)

theorem mem_values_set {m : GoMap V} {k : String} {v w : V} (hk : m.get k = none) :
    w ∈ (m.set k v).values ↔ w = v ∨ w ∈ m.values := by
  simp only [mem_values, get_set]
  constructor
  · rintro ⟨j, hj⟩
    split_ifs at hj with h
    · exact Or.inl (Option.some.inj hj).symm
    · exact Or.inr ⟨j, hj⟩
  · rintro (rfl | ⟨j, hj⟩)
    · exact ⟨k, by simp⟩
    · have hne : j ≠ k := fun h => by simp [h, hk] at hj
      exact ⟨j, by simp [hne, hj]⟩

theorem mem_values_delete {m : GoMap V} {k : String} {w : V} :
    w ∈ (m.delete k).values ↔ ∃ j, j ≠ k ∧ m.get j = some w := by
  simp only [mem_values, get_delete]
  constructor
  · rintro ⟨j, hj⟩
    split_ifs at hj with h
    exact ⟨j, h, hj⟩
  · rintro ⟨j, hne, hj⟩
    exact ⟨j, by simp [hne, hj]⟩

theorem mem_values_mapVals {f : V → V} {m : GoMap V} {w : V} :
    w ∈ (m.mapVals f).values ↔ ∃ v ∈ m.values, f v = w := by
  simp only [mem_values, get_mapVals, Option.map_eq_some_iff]
  constructor
  · rintro ⟨k, v, hv, rfl⟩
    exact ⟨v, ⟨k, hv⟩, rfl⟩
  · rintro ⟨v, ⟨k, hv⟩, rfl⟩
    exact ⟨k, v, hv, rfl⟩

theorem values_filter_key {key : V → String} {m : GoMap V} (hkey : ∀ k v, m.get k = some v → key v = k)
    (k : String) : m.values.filter (fun v => key v == k) = (m.get k).toList := by
  have hall (entries : List (Entry V)) (h : ∀ e ∈ entries, key e.2 = e.1) :
      (entries.map (fun e => e.2)).filter (fun v => key v == k) = List.lookupAll k entries := by
    induction entries with
    | nil => rfl
    | cons e entries ih =>
      have hrest := ih (fun e he => h e (List.mem_cons_of_mem _ he))
      have hid := h e List.mem_cons_self
      obtain ⟨j, v⟩ := e
      dsimp only at hid
      rw [List.map_cons, List.filter_cons, hrest, hid]
      by_cases hj : k = j
      · subst hj
        simp
      · simp [hj, Ne.symm hj]
  rw [values, hall m.entries (fun e he => hkey e.1 e.2 (mem_entries.mp he)),
    List.lookupAll_eq_dlookup k m.nodupKeys]
  rfl

theorem mem_values_foldl_set {key : V → String} {vs : List V} {m : GoMap V} {w : V}
    (h : w ∈ (vs.foldl (fun m v => m.set (key v) v) m).values) : w ∈ vs ∨ w ∈ m.values := by
  induction vs generalizing m with
  | nil => exact Or.inr h
  | cons v vs ih =>
    rcases ih h with hw | hw
    · exact Or.inl (List.mem_cons_of_mem _ hw)
    · obtain ⟨k, hk⟩ := mem_values.mp hw
      rw [get_set] at hk
      split_ifs at hk
      · exact Or.inl (by simp [Option.some.inj hk])
      · exact Or.inr (mem_values.mpr ⟨k, hk⟩)

@[simp] theorem slice_empty (k : String) : (∅ : GoMap (List V)).slice k = [] := rfl

theorem slice_set (m : GoMap (List V)) (k k' : String) (l : List V) :
    (m.set k l).slice k' = if k' = k then l else m.slice k' := by
  simp only [slice, get_set]
  split_ifs <;> rfl

theorem perm_flatMap_kerase {W : Type} (f : String → V → List W) (k : String)
    (entries : List (Entry (List V))) :
    ((List.kerase k entries).flatMap (fun e => e.2.flatMap (f e.1)) ++
      ((List.dlookup k entries).getD []).flatMap (f k)).Perm
      (entries.flatMap (fun e => e.2.flatMap (f e.1))) := by
  induction entries with
  | nil => simp
  | cons e entries ih =>
    obtain ⟨j, vs⟩ := e
    by_cases hj : k = j
    · subst hj
      simpa using List.perm_append_comm
    · rw [List.kerase_cons_ne hj, List.dlookup_cons_ne _ _ hj]
      simpa using ih.append_left _

-- slices collected under keys hold what was collected, whatever the order they are visited in
theorem perm_flatMap_collect {α W : Type} (key : α → String) (vals : α → List V)
    (f : String → V → List W) (rank : String → Nat) (xs : List α) :
    (((xs.foldl (fun m x => set m (key x) (m.slice (key x) ++ vals x)) ∅).range rank).flatMap
      (fun e => e.2.flatMap (f e.1))).Perm (xs.flatMap (fun x => (vals x).flatMap (f (key x)))) := by
  refine ((range_perm rank _).flatMap_right _).trans ?_
  induction xs using List.reverseRecOn with
  | nil => exact .nil
  | append_singleton xs x ih =>
    rw [List.foldl_append, List.foldl_cons, List.foldl_nil, List.flatMap_append,
      List.flatMap_singleton]
    generalize xs.foldl (fun m x => set m (key x) (m.slice (key x) ++ vals x)) ∅ = m at ih ⊢
    have hentries : (m.set (key x) (m.slice (key x) ++ vals x)).entries =
        ⟨key x, m.slice (key x) ++ vals x⟩ :: List.kerase (key x) m.entries := rfl
    rw [hentries, List.flatMap_cons, List.flatMap_append]
    refine List.perm_append_comm.trans ?_
    rw [← List.append_assoc]
    exact ((perm_flatMap_kerase f (key x) m.entries).trans ih).append_right _

theorem get_foldl_delete {p : V → Bool} {es : List (Entry V)} {m : GoMap V} {k : String} {v : V} :
    (es.foldl (fun m e => if p e.2 then m else m.delete e.1) m).get k = some v ↔
      m.get k = some v ∧ ∀ w, ⟨k, w⟩ ∈ es → p w = true := by
  induction es generalizing m with
  | nil => simp
  | cons e es ih =>
    obtain ⟨k', v'⟩ := e
    rw [List.foldl_cons, ih]
    cases hp : p v' with
    | true =>
      rw [if_pos rfl]
      refine and_congr_right (fun _ => ⟨fun h w hw => ?_, fun h w hw => h w (.tail _ hw)⟩)
      rcases List.mem_cons.mp hw with heq | hw
      · cases heq
        exact hp
      · exact h w hw
    | false =>
      rw [if_neg (by simp), get_delete]
      by_cases hk : k = k'
      · subst hk
        simp only [if_true, reduceCtorEq, false_and, false_iff, not_and, not_forall]
        exact fun _ => ⟨v', .head _, by simp [hp]⟩
      · rw [if_neg hk]
        refine and_congr_right (fun _ => ⟨fun h w hw => ?_, fun h w hw => h w (.tail _ hw)⟩)
        rcases List.mem_cons.mp hw with heq | hw
        · cases heq
          exact absurd rfl hk
        · exact h w hw

-- a loop over a map that deletes from the map it is over
theorem get_sweep {p : V → Bool} (rank : String → Nat) (m : GoMap V) (k : String) :
    ((m.range rank).foldl (fun m e => if p e.2 then m else m.delete e.1) m).get k =
      (m.get k).filter p := by
  apply Option.ext
  intro v
  rw [get_foldl_delete, Option.filter_eq_some_iff]
  refine and_congr_right (fun hk => ⟨fun h => h v (mem_range.mpr hk), fun h w hw => ?_⟩)
  rw [mem_range, hk] at hw
  rwa [← Option.some.inj hw]

end GoMap

end FogFlow
