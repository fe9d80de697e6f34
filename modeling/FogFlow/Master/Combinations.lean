import FogFlow.Master.Hash

namespace FogFlow.Master

open Ngsi Datamodel Loop

variable {key : String} {value : GroupValue}

abbrev KeyValues := GoMap.Entry (List GroupValue)

-- the groups after the loop has visited these entries of the table
def product (key : String) (value : GroupValue) (table : List KeyValues) : List GroupInfo :=
  table.foldl (fun groups e => if e.1 = key then groups else multiply groups e.1 e.2)
    [(∅ : GroupInfo).set key value]

theorem product_concat (table : List KeyValues) (e : KeyValues) :
    product key value (table ++ [e]) =
      if e.1 = key then product key value table
      else multiply (product key value table) e.1 e.2 := by
  simp [product]

theorem mem_multiply {groups : List GroupInfo} {uniqueKey : String} {values : List GroupValue}
    {g : GroupInfo} :
    g ∈ multiply groups uniqueKey values ↔
      ∃ v ∈ values, ∃ info ∈ groups, info.set uniqueKey v = g := by
  simp [multiply]

-- a group takes the given value under its own key and one of the listed values elsewhere
structure Picks (key : String) (value : GroupValue) (table : List KeyValues)
    (f : String → Option GroupValue) : Prop where
  own : f key = some value
  listed : ∀ k values, k ≠ key → ⟨k, values⟩ ∈ table → ∃ v ∈ values, f k = some v

theorem picks_product {table : List KeyValues} (hnd : (table.map (fun e => e.1)).Nodup)
    {g : GroupInfo} (hg : g ∈ product key value table) :
    Picks key value table g.get ∧
      ∀ k, k ≠ key → k ∉ table.map (fun e => e.1) → g.get k = none := by
  induction table using List.reverseRecOn generalizing g with
  | nil =>
    obtain rfl := List.mem_singleton.mp hg
    refine ⟨⟨by simp, by simp⟩, fun k hk _ => ?_⟩
    rw [GoMap.get_set_ne _ _ hk]
    rfl
  | append_singleton table e ih =>
    rw [List.map_append, List.map_singleton, List.nodup_append] at hnd
    rw [product_concat] at hg
    split_ifs at hg with he
    · obtain ⟨hp, hnone⟩ := ih hnd.1 hg
      refine ⟨⟨hp.own, ?_⟩, ?_⟩
      · intro k values hk hmem
        rcases List.mem_append.mp hmem with hmem | hmem
        · exact hp.listed k values hk hmem
        · rw [← List.mem_singleton.mp hmem] at he
          exact absurd he hk
      · intro k hk hmem
        rw [List.map_append, List.mem_append, not_or] at hmem
        exact hnone k hk hmem.1
    · obtain ⟨v, hv, info, hinfo, rfl⟩ := mem_multiply.mp hg
      obtain ⟨hp, hnone⟩ := ih hnd.1 hinfo
      refine ⟨⟨?_, ?_⟩, ?_⟩
      · rw [GoMap.get_set_ne _ _ (Ne.symm he)]
        exact hp.own
      · intro k values hk hmem
        rcases List.mem_append.mp hmem with hmem | hmem
        · have hne : k ≠ e.1 := hnd.2.2 k (List.mem_map_of_mem hmem) e.1 (by simp)
          rw [GoMap.get_set_ne _ _ hne]
          exact hp.listed k values hk hmem
        · obtain rfl := List.mem_singleton.mp hmem
          exact ⟨v, hv, GoMap.get_set_self _ _ _⟩
      · intro k hk hmem
        rw [List.map_append, List.mem_append, not_or, List.map_singleton,
          List.mem_singleton] at hmem
        rw [GoMap.get_set_ne _ _ hmem.2]
        exact hnone k hk hmem.1

theorem exists_mem_product {table : List KeyValues} (hnd : (table.map (fun e => e.1)).Nodup)
    {f : String → Option GroupValue} (hf : Picks key value table f) :
    ∃ g ∈ product key value table, ∀ k, k = key ∨ k ∈ table.map (fun e => e.1) →
      g.get k = f k := by
  induction table using List.reverseRecOn with
  | nil =>
    refine ⟨_, List.mem_singleton_self _, fun k hk => ?_⟩
    obtain rfl : k = key := by simpa using hk
    rw [GoMap.get_set_self, hf.own]
  | append_singleton table e ih =>
    rw [List.map_append, List.map_singleton, List.nodup_append] at hnd
    obtain ⟨g, hg, hagree⟩ := ih hnd.1
      ⟨hf.own, fun k values hk hmem => hf.listed k values hk (List.mem_append_left _ hmem)⟩
    rw [product_concat]
    split_ifs with he
    · refine ⟨g, hg, fun k hk => ?_⟩
      rw [List.map_append, List.mem_append, List.map_singleton, List.mem_singleton] at hk
      rcases hk with hk | hk | hk
      · exact hagree k (Or.inl hk)
      · exact hagree k (Or.inr hk)
      · exact hagree k (Or.inl (hk.trans he))
    · obtain ⟨v, hv, hfv⟩ := hf.listed e.1 e.2 he (by simp)
      refine ⟨g.set e.1 v, mem_multiply.mpr ⟨v, hv, g, hg, rfl⟩, fun k hk => ?_⟩
      rw [GoMap.get_set]
      split_ifs with hke
      · rw [hke, hfv]
      · rw [List.map_append, List.mem_append, List.map_singleton, List.mem_singleton] at hk
        rcases hk with hk | hk | hk
        · exact hagree k (Or.inl hk)
        · exact hagree k (Or.inr hk)
        · exact absurd hk hke

theorem product_distinct {table : List KeyValues} (hnd : (table.map (fun e => e.1)).Nodup)
    (hvalues : ∀ e ∈ table, e.2.Nodup) :
    (product key value table).Pairwise (fun g g' => ¬ SameGroup g g') := by
  induction table using List.reverseRecOn with
  | nil => simp [product]
  | append_singleton table e ih =>
    rw [List.map_append, List.map_singleton, List.nodup_append] at hnd
    have hpair := ih hnd.1 (fun e he => hvalues e (List.mem_append_left _ he))
    have hfresh : ∀ g ∈ product key value table, e.1 ≠ key → g.get e.1 = none := by
      intro g hg he
      refine (picks_product hnd.1 hg).2 e.1 he (fun hmem => ?_)
      exact hnd.2.2 e.1 hmem e.1 (by simp) rfl
    rw [product_concat]
    split_ifs with he
    · exact hpair
    · rw [multiply, List.pairwise_flatMap]
      constructor
      · intro v _
        rw [List.pairwise_map]
        refine hpair.imp_of_mem (fun {g g'} hg hg' hne hsame => hne (fun k => ?_))
        by_cases hk : k = e.1
        · rw [hk, hfresh g hg he, hfresh g' hg' he]
        · have := hsame k
          rwa [GoMap.get_set_ne _ _ hk, GoMap.get_set_ne _ _ hk] at this
      · refine (hvalues e (by simp)).imp (fun {v w} hvw => ?_)
        intro g hg g' hg' hsame
        obtain ⟨info, -, rfl⟩ := List.mem_map.mp hg
        obtain ⟨info', -, rfl⟩ := List.mem_map.mp hg'
        have := hsame e.1
        rw [GoMap.get_set_self, GoMap.get_set_self] at this
        exact hvw (Option.some.inj this)

theorem getRelevantGroups_eq {keyRank : String → Nat} {uniqueKeys : GoMap (List GroupValue)}
    {sub : InputSubscription} {entityID : String} (h : valueOf sub entityID = .ok value) :
    getRelevantGroups keyRank uniqueKeys sub entityID =
      .ok (product (groupedKey sub.inputSelector) value (uniqueKeys.range keyRank)) := by
  simp only [getRelevantGroups, h, ok_bind]
  rfl

end FogFlow.Master
