import FogFlow.Master.Orchestration
import Mathlib.Data.List.Sigma
import Mathlib.Data.String.Basic

namespace FogFlow.Master

open Ngsi Datamodel

theorem sortPass_perm (pairs : List KVPair) : (sortPass pairs).Perm pairs := by
  induction pairs with
  | nil => exact List.Perm.refl _
  | cons pair rest ih =>
    unfold sortPass
    cases h : sortPass rest with
    | nil =>
      rw [h] at ih
      rw [List.nil_perm.mp ih]
    | cons next others =>
      rw [h] at ih
      dsimp only
      split_ifs
      · exact (List.Perm.swap pair next others).trans (ih.cons pair)
      · exact ih.cons pair

-- one pass puts a new last pair into its place among pairs that are already in order
theorem sortPass_sorted {pairs : List KVPair} {x : KVPair}
    (hs : pairs.Pairwise (fun a b => a.1 < b.1)) (hx : x.1 ∉ pairs.map (fun e => e.1)) :
    (sortPass (pairs ++ [x])).Pairwise (fun a b => a.1 < b.1) := by
  induction pairs with
  | nil => simp [sortPass]
  | cons pair rest ih =>
    rw [List.pairwise_cons] at hs
    simp only [List.map_cons, List.mem_cons, not_or] at hx
    have hsorted := ih hs.2 hx.2
    have hperm := sortPass_perm (rest ++ [x])
    rw [List.cons_append, sortPass]
    cases h : sortPass (rest ++ [x]) with
    | nil => simp
    | cons next others =>
      rw [h] at hsorted hperm
      obtain ⟨hnext, hothers⟩ := List.pairwise_cons.mp hsorted
      have hmem : next ∈ rest ++ [x] := hperm.mem_iff.mp List.mem_cons_self
      dsimp only
      split_ifs with hlt
      · obtain rfl : next = x := by
          rcases List.mem_append.mp hmem with hr | hr
          · exact absurd hlt (hs.1 next hr).not_gt
          · exact List.mem_singleton.mp hr
        have hrest : others.Perm rest :=
          (List.perm_cons next).mp (hperm.trans (List.perm_append_singleton next rest))
        refine List.pairwise_cons.mpr ⟨?_, List.pairwise_cons.mpr ⟨?_, hothers⟩⟩
        · intro e he
          rcases List.mem_cons.mp he with rfl | he
          · exact hlt
          · exact hnext e he
        · exact fun e he => hs.1 e (hrest.mem_iff.mp he)
      · have hpn : pair.1 < next.1 := by
          rcases List.mem_append.mp hmem with hr | hr
          · exact hs.1 next hr
          · rw [List.mem_singleton.mp hr] at hlt ⊢
            exact lt_of_le_of_ne (not_lt.mp hlt) (Ne.symm hx.1)
        refine List.pairwise_cons.mpr ⟨?_, hsorted⟩
        intro e he
        rcases List.mem_cons.mp he with rfl | he
        · exact hpn
        · exact hpn.trans (hnext e he)

theorem sortedPairs_concat (pairs : List KVPair) (x : KVPair) :
    sortedPairs (pairs ++ [x]) = sortPass (sortedPairs pairs ++ [x]) := by
  simp [sortedPairs]

theorem sortedPairs_perm (pairs : List KVPair) : (sortedPairs pairs).Perm pairs := by
  induction pairs using List.reverseRecOn with
  | nil => exact List.Perm.refl _
  | append_singleton pairs x ih =>
    rw [sortedPairs_concat]
    exact (sortPass_perm _).trans (ih.append_right [x])

theorem sortedPairs_sorted {pairs : List KVPair} (h : (pairs.map (fun e => e.1)).Nodup) :
    (sortedPairs pairs).Pairwise (fun a b => a.1 < b.1) := by
  induction pairs using List.reverseRecOn with
  | nil => simp [sortedPairs]
  | append_singleton pairs x ih =>
    rw [sortedPairs_concat]
    rw [List.map_append, List.map_singleton, List.nodup_append] at h
    refine sortPass_sorted (ih h.1) (fun hx => ?_)
    have hmem := ((sortedPairs_perm pairs).map (fun e => e.1)).mem_iff.mp hx
    exact h.2.2 _ hmem x.1 (by simp) rfl

-- the two groups have the same value under every key
def SameGroup (g g' : GroupInfo) : Prop := ∀ k, g.get k = g'.get k

theorem SameGroup.symm {g g' : GroupInfo} (h : SameGroup g g') : SameGroup g' g :=
  fun k => (h k).symm

theorem entries_perm {g g' : GroupInfo} (h : SameGroup g g') : g.entries.Perm g'.entries := by
  refine List.lookup_ext g.nodupKeys g'.nodupKeys (fun k v => ?_)
  have hk : List.dlookup k g.entries = List.dlookup k g'.entries := h k
  rw [hk]

-- the hash depends neither on how the group was built nor on the order of the loop over it
theorem getHash_congr {marshal : GroupValue → String} {g g' : GroupInfo} (h : SameGroup g g')
    (rank rank' : String → Nat) : getHash marshal rank g = getHash marshal rank' g' := by
  have hperm : (g.range rank).Perm (g'.range rank') :=
    ((GoMap.range_perm rank g).trans (entries_perm h)).trans (GoMap.range_perm rank' g').symm
  have heq : sortedPairs (g.range rank) = sortedPairs (g'.range rank') := by
    have hle : ∀ a b : KVPair, a ∈ sortedPairs (g.range rank) →
        b ∈ sortedPairs (g'.range rank') → a.1 < b.1 → b.1 < a.1 → a = b :=
      fun a b _ _ hab hba => absurd hab hba.not_gt
    exact List.Perm.eq_of_pairwise hle
      (sortedPairs_sorted (GoMap.range_keys_nodup rank g))
      (sortedPairs_sorted (GoMap.range_keys_nodup rank' g'))
      ((sortedPairs_perm _).trans (hperm.trans (sortedPairs_perm _).symm))
  rw [getHash, getHash, heq]

theorem dot_notMem_sprintf08d (n : UInt32) : '.' ∉ (sprintf08d n).toList := by
  intro h
  simp only [sprintf08d, String.toList_append, String.toList_ofList, List.mem_append] at h
  rcases h with h | h
  · simp [List.mem_replicate] at h
  · have hd : '.' ∈ Nat.toDigits 10 n.toNat := by simpa [Nat.repr] using h
    have := Nat.isDigit_of_mem_toDigits (by decide) (by decide) hd
    simp [Char.isDigit] at this

theorem lastItem_append {s : String} (base : String) (h : '.' ∉ s.toList) :
    lastItem (base ++ "." ++ s) = s := by
  have hfold : ∀ (cs acc : List Char), '.' ∉ cs →
      cs.foldl (fun item c => if c = '.' then [] else item ++ [c]) acc = acc ++ cs := by
    intro cs
    induction cs with
    | nil => simp
    | cons c cs ih =>
      intro acc hc
      simp only [List.mem_cons, not_or] at hc
      rw [List.foldl_cons, if_neg (Ne.symm hc.1), ih _ hc.2]
      simp
  have hdot : ".".toList = ['.'] := rfl
  simp only [lastItem, String.toList_append, List.foldl_append, hdot, List.foldl_cons,
    List.foldl_nil, if_true]
  rw [hfold _ _ h]
  simp

theorem lastItem_taskID (intent : TaskIntent) {marshal : GroupValue → String}
    (rank : String → Nat) (g : GroupInfo) (inputs : List InputEntity)
    (outputs : List ContextElement) :
    lastItem (newTask intent (getHash marshal rank g) inputs outputs).taskID =
      getHash marshal rank g :=
  lastItem_append _ (dot_notMem_sprintf08d _)

end FogFlow.Master
