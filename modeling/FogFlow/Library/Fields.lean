import FogFlow.Library.GoMap
import Mathlib.Data.String.Basic

namespace FogFlow.Fields

variable {V W : Type}

-- of two fields with one key the later one counts
def ofFields (fields : List (String × V)) : GoMap V :=
  fields.foldl (fun m f => m.set f.1 f.2) ∅

def toFields (m : GoMap V) : List (String × V) :=
  (m.entries.insertionSort (fun a b => a.1 ≤ b.1)).map (fun e => (e.1, e.2))

-- a list of fields stands for a map; this is the one list for each map
def canonical (fields : List (String × V)) : List (String × V) := toFields (ofFields fields)

def mapSnd (f : V → W) (fields : List (String × V)) : List (String × W) :=
  fields.map (fun e => (e.1, f e.2))

theorem ofFields_concat (fields : List (String × V)) (f : String × V) :
    ofFields (fields ++ [f]) = (ofFields fields).set f.1 f.2 := by
  simp [ofFields]

theorem entries_ofFields_eq_nil {fields : List (String × V)} :
    (ofFields fields).entries = [] ↔ fields = [] := by
  constructor
  · intro h
    by_contra hne
    obtain ⟨init, f, rfl⟩ := (List.eq_nil_or_concat' fields).resolve_left hne
    have hmem : (⟨f.1, f.2⟩ : GoMap.Entry V) ∈ (ofFields (init ++ [f])).entries := by
      rw [GoMap.mem_entries, ofFields_concat, GoMap.get_set_self]
    rw [h] at hmem
    exact List.not_mem_nil hmem
  · rintro rfl
    rfl

theorem get_ofFields_mapSnd (f : V → W) (fields : List (String × V)) (k : String) :
    (ofFields (mapSnd f fields)).get k = ((ofFields fields).get k).map f := by
  induction fields using List.reverseRecOn with
  | nil => rfl
  | append_singleton fields e ih =>
    have hmap : mapSnd f (fields ++ [e]) = mapSnd f fields ++ [(e.1, f e.2)] := by simp [mapSnd]
    rw [hmap, ofFields_concat, ofFields_concat, GoMap.get_set, GoMap.get_set, ih]
    split_ifs <;> rfl

theorem get_ofFields_of_nodup {fields : List (String × V)}
    (hnd : (fields.map Prod.fst).Nodup) {k : String} {v : V} :
    (ofFields fields).get k = some v ↔ (k, v) ∈ fields := by
  induction fields using List.reverseRecOn with
  | nil => simp [ofFields]
  | append_singleton fields e ih =>
    rw [List.map_append, List.map_singleton, List.nodup_append] at hnd
    have hfresh : e.1 ∉ fields.map Prod.fst := fun hmem => hnd.2.2 _ hmem e.1 (by simp) rfl
    rw [ofFields_concat, GoMap.get_set, List.mem_append, List.mem_singleton, ← ih hnd.1]
    split_ifs with hk
    · subst hk
      have hnot : (e.1, v) ∉ fields := fun hmem => hfresh (List.mem_map.mpr ⟨_, hmem, rfl⟩)
      rw [or_iff_right (ih hnd.1 |>.not.mpr hnot), Option.some.injEq, Prod.ext_iff]
      simp [eq_comm]
    · have hne : (k, v) ≠ e := fun he => hk (congrArg Prod.fst he)
      simp [hne]

theorem get_ofFields_append (fields fields' : List (String × V)) (k : String) :
    (ofFields (fields ++ fields')).get k =
      ((ofFields fields').get k).or ((ofFields fields).get k) := by
  induction fields' using List.reverseRecOn with
  | nil => rw [List.append_nil]; rfl
  | append_singleton fields' e ih =>
    rw [← List.append_assoc, ofFields_concat, ofFields_concat, GoMap.get_set, GoMap.get_set, ih]
    split_ifs <;> rfl

-- no field is hidden by a later one of its key
def Functional (fields : List (String × V)) : Prop :=
  ∀ x ∈ fields, ∀ y ∈ fields, x.1 = y.1 → x.2 = y.2

theorem mem_of_get_ofFields {fields : List (String × V)} {k : String} {v : V}
    (h : (ofFields fields).get k = some v) : (k, v) ∈ fields := by
  induction fields using List.reverseRecOn with
  | nil => cases h
  | append_singleton fields e ih =>
    rw [ofFields_concat, GoMap.get_set] at h
    split_ifs at h with hk
    · obtain rfl := Option.some.inj h
      subst hk
      simp
    · exact List.mem_append_left _ (ih h)

theorem get_ofFields_of_mem {fields : List (String × V)} {x : String × V} (h : x ∈ fields) :
    ∃ v, (ofFields fields).get x.1 = some v := by
  induction fields using List.reverseRecOn with
  | nil => simp at h
  | append_singleton fields e ih =>
    rw [ofFields_concat, GoMap.get_set]
    split_ifs with hk
    · exact ⟨e.2, rfl⟩
    · rcases List.mem_append.mp h with h | h
      · exact ih h
      · exact absurd (congrArg Prod.fst (List.mem_singleton.mp h)) hk

theorem get_ofFields_iff_functional {fields : List (String × V)} :
    (∀ x ∈ fields, (ofFields fields).get x.1 = some x.2) ↔ Functional fields := by
  constructor
  · intro h x hx y hy hkey
    have hget := h x hx
    rw [hkey, h y hy] at hget
    exact (Option.some.inj hget).symm
  · intro h x hx
    obtain ⟨v, hv⟩ := get_ofFields_of_mem hx
    rw [hv, h x hx (x.1, v) (mem_of_get_ofFields hv) rfl]

-- the entries of a map that the fields stand for, in the order of any loop over it
theorem range_perm_fields {m : GoMap V} {fields : List (String × V)}
    (hnd : (fields.map Prod.fst).Nodup) (h : ∀ k, m.get k = (ofFields fields).get k)
    (rank : String → Nat) : (m.range rank).Perm (fields.map (fun f => ⟨f.1, f.2⟩)) := by
  have hinj : Function.Injective (fun f : String × V => (⟨f.1, f.2⟩ : GoMap.Entry V)) := by
    intro f f' heq
    obtain ⟨hk, hv⟩ := Sigma.mk.inj_iff.mp heq
    exact Prod.ext hk (eq_of_heq hv)
  refine (List.perm_ext_iff_of_nodup ?_ ?_).mpr ?_
  · exact (GoMap.range_keys_nodup rank m).of_map
  · exact hnd.of_map.map hinj
  · rintro ⟨k, v⟩
    rw [GoMap.mem_range, h, get_ofFields_of_nodup hnd, List.mem_map]
    constructor
    · intro hf
      exact ⟨(k, v), hf, rfl⟩
    · rintro ⟨f, hf, heq⟩
      have hfield : f = (k, v) := hinj heq
      rwa [← hfield]

theorem mem_toFields {m : GoMap V} {k : String} {v : V} :
    (k, v) ∈ toFields m ↔ m.get k = some v := by
  rw [toFields, List.mem_map, ← GoMap.mem_entries]
  constructor
  · rintro ⟨e, he, heq⟩
    obtain ⟨rfl, rfl⟩ := Prod.mk.inj heq
    exact (List.perm_insertionSort _ _).mem_iff.mp he
  · intro he
    exact ⟨⟨k, v⟩, (List.perm_insertionSort _ _).mem_iff.mpr he, rfl⟩

theorem keys_toFields_nodup (m : GoMap V) : ((toFields m).map Prod.fst).Nodup := by
  rw [toFields, List.map_map]
  exact (((List.perm_insertionSort _ m.entries).map _).nodup_iff).mpr m.nodupKeys

theorem get_ofFields_toFields (m : GoMap V) (k : String) :
    (ofFields (toFields m)).get k = m.get k :=
  Option.ext fun _ => (get_ofFields_of_nodup (keys_toFields_nodup m)).trans mem_toFields

theorem toFields_sorted (m : GoMap V) :
    (toFields m).Pairwise (fun a b => a.1 ≤ b.1) := by
  rw [toFields, List.pairwise_map]
  exact List.pairwise_insertionSort _ _

theorem toFields_congr {m m' : GoMap V} (h : ∀ k, m.get k = m'.get k) :
    toFields m = toFields m' := by
  have hperm : (toFields m).Perm (toFields m') := by
    refine (List.perm_ext_iff_of_nodup ?_ ?_).mpr ?_
    · exact (keys_toFields_nodup m).of_map
    · exact (keys_toFields_nodup m').of_map
    · rintro ⟨k, v⟩
      rw [mem_toFields, mem_toFields, h]
  refine hperm.eq_of_pairwise ?_ (toFields_sorted m) (toFields_sorted m')
  intro a b ha hb hab hba
  have hkey : a.1 = b.1 := le_antisymm hab hba
  have hget := mem_toFields.mp hb
  have hga : m.get a.1 = some a.2 := mem_toFields.mp ha
  rw [← hkey, ← h, hga] at hget
  exact Prod.ext hkey (Option.some.inj hget)

theorem get_ofFields_canonical (fields : List (String × V)) (k : String) :
    (ofFields (canonical fields)).get k = (ofFields fields).get k :=
  get_ofFields_toFields _ _

theorem canonical_perm {fields : List (String × V)} (hnd : (fields.map Prod.fst).Nodup) :
    (canonical fields).Perm fields := by
  refine (List.perm_ext_iff_of_nodup ?_ ?_).mpr ?_
  · exact (keys_toFields_nodup _).of_map
  · exact hnd.of_map
  · rintro ⟨k, v⟩
    rw [canonical, mem_toFields, get_ofFields_of_nodup hnd]

theorem canonical_congr {fields fields' : List (String × V)}
    (h : ∀ k, (ofFields fields).get k = (ofFields fields').get k) :
    canonical fields = canonical fields' :=
  toFields_congr h

theorem canonical_mapSnd_canonical (f : V → W) (fields : List (String × V)) :
    canonical (mapSnd f (canonical fields)) = canonical (mapSnd f fields) := by
  refine canonical_congr (fun k => ?_)
  rw [get_ofFields_mapSnd, get_ofFields_mapSnd, get_ofFields_canonical]

end FogFlow.Fields
