import FogFlow.Master.UniqueKeys

namespace FogFlow.Master

open Ngsi Datamodel Loop

variable {type : String → String} {subscriptions : GoMap InputSubscription}
  {uniqueKeys : GoMap (List GroupValue)} {subID : String} {sub : InputSubscription}
  {r : EntityRegistration} {g : GroupInfo}

def Available (subscriptions : GoMap InputSubscription) : Prop :=
  ∀ subID sub, subscriptions.get subID = some sub →
    ∃ k, sub.receivedEntityRegistrations.get k ≠ none

theorem available_iff : Available subscriptions ↔ checkInputAvailability subscriptions = true := by
  simp only [Available, checkInputAvailability_iff, Option.ne_none_iff_exists']

theorem exists_values (htab : Tabulated subscriptions uniqueKeys)
    (havail : Available subscriptions) (hsub : subscriptions.get subID = some sub) :
    ∃ values, uniqueKeys.get (groupedKey sub.inputSelector) = some values := by
  refine Option.ne_none_iff_exists'.mp (fun hnone => ?_)
  obtain ⟨k, hk⟩ := havail _ _ hsub
  exact hk (htab.complete _ _ hsub hnone k)

section Groups

variable (htab : Tabulated subscriptions uniqueKeys) (havail : Available subscriptions)
include htab havail

theorem combination_of_mem_product (hs : Streams subscriptions)
    (hsub : subscriptions.get subID = some sub)
    {value : GroupValue} (hv : Admissible sub value) {rank : String → Nat}
    (hg : g ∈ product (groupedKey sub.inputSelector) value (uniqueKeys.range rank)) :
    Combination subscriptions g := by
  obtain ⟨hp, hnone⟩ := picks_product (GoMap.range_keys_nodup rank uniqueKeys) hg
  constructor
  · intro k other hother
    by_cases hk : groupedKey other.inputSelector = groupedKey sub.inputSelector
    · obtain rfl := hs.key_injective hother hsub hk
      obtain rfl : other = sub := Option.some.inj (hother.symm.trans hsub)
      exact ⟨value, hp.own, hv⟩
    · obtain ⟨values, hvalues⟩ := exists_values htab havail hother
      obtain ⟨v, hmem, hgv⟩ := hp.listed _ values hk (GoMap.mem_range.mpr hvalues)
      exact ⟨v, hgv, ((htab.listed _ _ hother values hvalues).2 v).mp hmem⟩
  · intro k v hkv
    by_cases hk : k = groupedKey sub.inputSelector
    · exact ⟨subID, sub, hsub, hk⟩
    · by_cases hin : k ∈ (uniqueKeys.range rank).map (fun e => e.1)
      · obtain ⟨⟨k, values⟩, hmem, rfl⟩ := List.mem_map.mp hin
        exact htab.only k values (GoMap.mem_range.mp hmem)
      · rw [hnone k hk hin] at hkv
        cases hkv

theorem exists_group_of_combination {value : GroupValue} {c : GroupInfo}
    (hc : Combination subscriptions c)
    (hv : c.get (groupedKey sub.inputSelector) = some value) (rank : String → Nat) :
    ∃ g ∈ product (groupedKey sub.inputSelector) value (uniqueKeys.range rank),
      SameGroup c g := by
  have hnd := GoMap.range_keys_nodup rank uniqueKeys
  have hp : Picks (groupedKey sub.inputSelector) value (uniqueKeys.range rank) c.get := by
    refine ⟨hv, fun k values _ hmem => ?_⟩
    have hget := GoMap.mem_range.mp hmem
    obtain ⟨k', other, hother, rfl⟩ := htab.only k values hget
    obtain ⟨v, hcv, hadm⟩ := hc.value _ _ hother
    exact ⟨v, ((htab.listed _ _ hother values hget).2 v).mpr hadm, hcv⟩
  obtain ⟨g, hg, hagree⟩ := exists_mem_product hnd hp
  refine ⟨g, hg, fun k => ?_⟩
  by_cases hk : k = groupedKey sub.inputSelector ∨
      k ∈ (uniqueKeys.range rank).map (fun e => e.1)
  · exact (hagree k hk).symm
  · rw [not_or] at hk
    rw [(picks_product hnd hg).2 k hk.1 hk.2]
    cases hck : c.get k with
    | none => rfl
    | some v =>
      obtain ⟨k', other, hother, rfl⟩ := hc.only k v hck
      obtain ⟨values, hvalues⟩ := exists_values htab havail hother
      exact absurd (List.mem_map_of_mem (GoMap.mem_range.mpr hvalues)) hk.2

-- the groups of the loop are the combinations with the value of the received entity
structure Relevant (subscriptions : GoMap InputSubscription) (key : String) (value : GroupValue)
    (groups : List GroupInfo) : Prop where
  combination : ∀ g ∈ groups, Combination subscriptions g
  own : ∀ g ∈ groups, g.get key = some value
  complete : ∀ c, Combination subscriptions c → c.get key = some value →
    ∃ g ∈ groups, SameGroup c g
  distinct : groups.Pairwise (fun g g' => ¬ SameGroup g g')

theorem relevant_product (hs : Streams subscriptions) (hsub : subscriptions.get subID = some sub)
    {value : GroupValue} (hv : Admissible sub value) (rank : String → Nat) :
    Relevant subscriptions (groupedKey sub.inputSelector) value
      (product (groupedKey sub.inputSelector) value (uniqueKeys.range rank)) := by
  have hnd := GoMap.range_keys_nodup rank uniqueKeys
  refine ⟨fun g hg => combination_of_mem_product htab havail hs hsub hv hg,
    fun g hg => (picks_product hnd hg).1.own,
    fun c hc hcv => exists_group_of_combination htab havail hc hcv rank,
    product_distinct hnd ?_⟩
  rintro ⟨k, values⟩ he
  have hget := GoMap.mem_range.mp he
  obtain ⟨k', other, hother, rfl⟩ := htab.only k values hget
  exact (htab.listed _ _ hother values hget).1

end Groups

section Receive

variable (hs : Streams subscriptions) (hsub : subscriptions.get subID = some sub)
include hs hsub

theorem combination_mono (h : Combination subscriptions g) :
    Combination (subscriptions.set subID (receive sub r)) g := by
  constructor
  · intro k other hk
    rw [GoMap.get_set] at hk
    split_ifs at hk
    · obtain ⟨v, hv, ha⟩ := h.value _ _ hsub
      rw [← Option.some.inj hk, receive_inputSelector]
      exact ⟨v, hv, (admissible_receive_iff (hs.notByType _ _ hsub)).mpr (Or.inr ha)⟩
    · exact h.value k other hk
  · intro k v hkv
    obtain ⟨k', other, hother, rfl⟩ := h.only k v hkv
    by_cases hk : k' = subID
    · obtain rfl : other = sub := Option.some.inj ((hk ▸ hother).symm.trans hsub)
      exact ⟨subID, _, GoMap.get_set_self _ _ _, by rw [receive_inputSelector]⟩
    · exact ⟨k', other, by rw [GoMap.get_set_ne _ _ hk, hother], rfl⟩

theorem matching_mono {entityID : String} (h : Matching subscriptions g entityID) :
    Matching (subscriptions.set subID (receive sub r)) g entityID := by
  obtain ⟨k, other, hother, hheld, hm⟩ := h
  by_cases hk : k = subID
  · obtain rfl : other = sub := Option.some.inj ((hk ▸ hother).symm.trans hsub)
    refine ⟨subID, _, GoMap.get_set_self _ _ _,
      (held_receive_iff (hs.notByType _ _ hsub)).mpr (Or.inr hheld), ?_⟩
    simpa [MatchesGroup] using hm
  · exact ⟨k, other, by rw [GoMap.get_set_ne _ _ hk, hother], hheld, hm⟩

-- a combination with another value in this stream was one before, with the same entities
theorem combination_of_other_value
    (h : Combination (subscriptions.set subID (receive sub r)) g)
    (hne : g.get (groupedKey sub.inputSelector) ≠ some (ownValue sub r.id)) :
    Combination subscriptions g ∧ (∃ k, sub.receivedEntityRegistrations.get k ≠ none) ∧
      ∀ entityID, Matching (subscriptions.set subID (receive sub r)) g entityID ↔
        Matching subscriptions g entityID := by
  have hbt := hs.notByType _ _ hsub
  obtain ⟨v, hv, hadm⟩ := h.value subID _ (GoMap.get_set_self _ _ _)
  rw [receive_inputSelector] at hv
  have hadm : Admissible sub v := ((admissible_receive_iff hbt).mp hadm).resolve_left
    (fun he => hne (he ▸ hv))
  have hall : sub.inputSelector.groupBy ≠ "ALL" := by
    intro hall
    exact hne (by rw [hv]; simpa [Admissible, ownValue, hall] using hadm)
  have hother : ∀ k other, k ≠ subID → subscriptions.get k = some other →
      (subscriptions.set subID (receive sub r)).get k = some other :=
    fun k other hk hget => by rw [GoMap.get_set_ne _ _ hk, hget]
  refine ⟨⟨?_, ?_⟩, ?_, fun entityID => ⟨?_, matching_mono hs hsub⟩⟩
  · intro k other hget
    by_cases hk : k = subID
    · obtain rfl : other = sub := Option.some.inj ((hk ▸ hget).symm.trans hsub)
      exact ⟨v, hv, hadm⟩
    · exact h.value k other (hother k other hk hget)
  · intro k w hkw
    obtain ⟨k', other, hget, rfl⟩ := h.only k w hkw
    rw [GoMap.get_set] at hget
    split_ifs at hget
    · exact ⟨subID, sub, hsub, by rw [← Option.some.inj hget, receive_inputSelector]⟩
    · exact ⟨k', other, hget, rfl⟩
  · simp only [Admissible, if_neg hall] at hadm
    obtain ⟨k, hk, -⟩ := hadm
    exact ⟨k, hk⟩
  · rintro ⟨k, other, hget, hheld, hm⟩
    rw [GoMap.get_set] at hget
    split_ifs at hget
    · obtain rfl := Option.some.inj hget
      rw [MatchesGroup, receive_inputSelector] at hm
      refine ⟨subID, sub, hsub, ((held_receive_iff hbt).mp hheld).resolve_left ?_, hm⟩
      rintro rfl
      exact hne (by rw [hm.resolve_left hall]; simp [ownValue, hall])
    · exact ⟨k, other, hget, hheld, hm⟩

end Receive

end FogFlow.Master
