import FogFlow.Master.Streams

namespace FogFlow.Master

open Ngsi Datamodel Loop

variable {type : String → String} {subscriptions : GoMap InputSubscription}
  {uniqueKeys : GoMap (List GroupValue)} {subID : String} {sub : InputSubscription}
  {r : EntityRegistration}

theorem decoded_update {old : EntityRegistration} (ho : Decoded old) (hr : Decoded r) :
    Decoded (old.update r) := by
  intro m hm
  rcases GoMap.mem_values_foldl_set hm with hm | hm
  · exact hr m hm
  · exact ho m hm

theorem receivedKey_eq (h : sub.inputSelector.isSimpleByType = false) (entityID : String) :
    receivedKey sub entityID = entityID := by
  simp [receivedKey, h]

theorem streams_receive (h : Streams subscriptions) (hsub : subscriptions.get subID = some sub) :
    Streams (subscriptions.set subID (receive sub r)) := by
  have hold : ∀ k other, (subscriptions.set subID (receive sub r)).get k = some other →
      ∃ before, subscriptions.get k = some before ∧
        other.inputSelector = before.inputSelector := by
    intro k other hk
    rw [GoMap.get_set] at hk
    split_ifs at hk with hks
    · rw [← Option.some.inj hk, hks]
      exact ⟨sub, hsub, receive_inputSelector sub r⟩
    · exact ⟨other, hk, rfl⟩
  refine ⟨⟨subID, _, GoMap.get_set_self _ _ _⟩, ?_, ?_, ?_⟩
  · intro k other hk
    obtain ⟨before, hb, hsel⟩ := hold k other hk
    exact hsel ▸ h.grouped k before hb
  · intro k other hk
    obtain ⟨before, hb, hsel⟩ := hold k other hk
    exact hsel ▸ h.notByType k before hb
  · intro k k' other other' hk hk' heq
    obtain ⟨before, hb, hsel⟩ := hold k other hk
    obtain ⟨before', hb', hsel'⟩ := hold k' other' hk'
    rw [hsel, hsel'] at heq
    exact h.distinct k k' before before' hb hb' heq

theorem typed_receive (hs : Streams subscriptions) (h : Typed type subscriptions)
    (hsub : subscriptions.get subID = some sub)
    (htype : type r.id = sub.inputSelector.entityType) (hdec : Decoded r) :
    Typed type (subscriptions.set subID (receive sub r)) := by
  intro k other hk key r' hr'
  rw [GoMap.get_set] at hk
  split_ifs at hk
  · obtain rfl := Option.some.inj hk
    rw [receive_inputSelector]
    have hset : ∀ new : EntityRegistration, new.id = r.id → Decoded new →
        ∀ key r', (sub.receivedEntityRegistrations.set (receivedKey sub r.id) new).get key =
          some r' → r'.id = key ∧ type key = sub.inputSelector.entityType ∧ Decoded r' := by
      intro new hid hnew key r' hget
      rw [receivedKey_eq (hs.notByType _ _ hsub), GoMap.get_set] at hget
      split_ifs at hget with hkey
      · rw [← Option.some.inj hget, hkey]
        exact ⟨hid, htype, hnew⟩
      · exact h _ _ hsub key r' hget
    rcases receive_cases sub r with ⟨-, heq⟩ | ⟨old, hold, ⟨-, heq⟩ | ⟨-, heq⟩⟩ <;>
      rw [heq] at hr'
    · exact hset r rfl hdec key r' hr'
    · exact h _ _ hsub key r' hr'
    · rw [receivedKey_eq (hs.notByType _ _ hsub)] at hold
      obtain ⟨hid, -, hdecOld⟩ := h _ _ hsub _ old hold
      exact hset (old.update r) hid (decoded_update hdecOld hdec) key r' hr'
  · exact h k other hk key r' hr'

-- the value under which a stream files an entity
def ownValue (sub : InputSubscription) (entityID : String) : GroupValue :=
  if sub.inputSelector.groupBy = "ALL" then .text "ALL" else .text entityID

@[simp] theorem ownValue_receive (sub : InputSubscription) (r : EntityRegistration)
    (entityID : String) : ownValue (receive sub r) entityID = ownValue sub entityID := by
  simp [ownValue]

theorem valueOf_eq (hs : Streams subscriptions) (h : Typed type subscriptions)
    (hsub : subscriptions.get subID = some sub) {entityID : String}
    (hheld : sub.receivedEntityRegistrations.get entityID ≠ none) :
    valueOf sub entityID = .ok (ownValue sub entityID) := by
  obtain ⟨r, hr⟩ := Option.ne_none_iff_exists'.mp hheld
  unfold valueOf ownValue
  rcases hs.grouped _ _ hsub with hg | hg
  · rw [if_pos hg, if_pos hg]
  · have hne : sub.inputSelector.groupBy ≠ "ALL" := by simp [hg]
    rw [if_neg hne, if_neg hne, hr]
    simp [deref, hg, groupedValue, (h _ _ hsub entityID r hr).1]

theorem admissible_ownValue {entityID : String}
    (hheld : sub.receivedEntityRegistrations.get entityID ≠ none) :
    Admissible sub (ownValue sub entityID) := by
  unfold Admissible ownValue
  split_ifs
  · rfl
  · exact ⟨entityID, hheld, rfl⟩

theorem held_receive_iff (h : sub.inputSelector.isSimpleByType = false) {k : String} :
    (receive sub r).receivedEntityRegistrations.get k ≠ none ↔
      k = r.id ∨ sub.receivedEntityRegistrations.get k ≠ none := by
  rw [ne_eq, get_receive_eq_none_iff, receivedKey_eq h, not_and_or, not_not]

theorem admissible_receive_iff (h : sub.inputSelector.isSimpleByType = false) {v : GroupValue} :
    Admissible (receive sub r) v ↔
      v = ownValue sub r.id ∨ Admissible sub v := by
  unfold Admissible ownValue
  rw [receive_inputSelector]
  split_ifs
  · simp
  · constructor
    · rintro ⟨k, hk, rfl⟩
      rcases (held_receive_iff h).mp hk with rfl | hk
      · exact Or.inl rfl
      · exact Or.inr ⟨k, hk, rfl⟩
    · rintro (rfl | ⟨k, hk, rfl⟩)
      · exact ⟨r.id, (held_receive_iff h).mpr (Or.inl rfl), rfl⟩
      · exact ⟨k, (held_receive_iff h).mpr (Or.inr hk), rfl⟩

theorem inList_text {x : String} {items : List GroupValue}
    (h : ∀ v ∈ items, ∃ s, v = GroupValue.text s) :
    inList (.text x) items = .ok (decide (.text x ∈ items)) := by
  induction items with
  | nil => rfl
  | cons item items ih =>
    obtain ⟨s, rfl⟩ := h item (by simp)
    rw [inList, ih (fun v hv => h v (by simp [hv]))]
    by_cases hs : s = x
    · simp [GroupValue.goEq, hs]
    · have hne : GroupValue.text x ≠ .text s := fun he => hs (GroupValue.text.inj he).symm
      simp [GroupValue.goEq, hs, hne]

-- the table lists the admissible values of every stream that has received something
structure Tabulated (subscriptions : GoMap InputSubscription)
    (uniqueKeys : GoMap (List GroupValue)) : Prop where
  listed : ∀ subID sub, subscriptions.get subID = some sub →
    ∀ values, uniqueKeys.get (groupedKey sub.inputSelector) = some values →
      values.Nodup ∧ ∀ v, v ∈ values ↔ Admissible sub v
  complete : ∀ subID sub, subscriptions.get subID = some sub →
    uniqueKeys.get (groupedKey sub.inputSelector) = none →
      ∀ k, sub.receivedEntityRegistrations.get k = none
  only : ∀ key values, uniqueKeys.get key = some values →
    ∃ subID sub, subscriptions.get subID = some sub ∧ key = groupedKey sub.inputSelector

theorem text_of_admissible {v : GroupValue} (h : Admissible sub v) : ∃ s, v = .text s := by
  unfold Admissible at h
  split_ifs at h
  · exact ⟨_, h⟩
  · obtain ⟨k, -, rfl⟩ := h
    exact ⟨k, rfl⟩

-- only the list under the stream's own key changes, and it gains the stream's own value
theorem updateGroupedKeyValueTable_eq (hs : Streams subscriptions) (ht : Typed type subscriptions)
    (htab : Tabulated subscriptions uniqueKeys) (hsub : subscriptions.get subID = some sub)
    (htype : type r.id = sub.inputSelector.entityType) (hdec : Decoded r) :
    ∃ next values, updateGroupedKeyValueTable uniqueKeys (receive sub r) r.id = .ok next ∧
      (∀ k, next.get k =
        if k = groupedKey sub.inputSelector then some values else uniqueKeys.get k) ∧
      values.Nodup ∧ ∀ v, v ∈ values ↔ Admissible (receive sub r) v := by
  have hbt := hs.notByType _ _ hsub
  have hheld : (receive sub r).receivedEntityRegistrations.get r.id ≠ none :=
    (held_receive_iff hbt).mpr (Or.inl rfl)
  have hvalue : valueOf (receive sub r) r.id = .ok (ownValue sub r.id) := by
    have := valueOf_eq (streams_receive (r := r) hs hsub) (typed_receive hs ht hsub htype hdec)
      (GoMap.get_set_self _ _ _) hheld
    simpa [ownValue] using this
  have hset : ∀ values : List GroupValue, ∀ k,
      (uniqueKeys.set (groupedKey sub.inputSelector) values).get k =
        if k = groupedKey sub.inputSelector then some values else uniqueKeys.get k :=
    fun values k => GoMap.get_set _ _ _ _
  rw [updateGroupedKeyValueTable, hvalue, ok_bind, receive_inputSelector]
  cases hget : uniqueKeys.get (groupedKey sub.inputSelector) with
  | none =>
    refine ⟨_, [ownValue sub r.id], rfl, hset _, List.nodup_singleton _, fun v => ?_⟩
    have hno : ¬ Admissible sub v ∨ v = ownValue sub r.id := by
      unfold Admissible ownValue
      split_ifs
      · exact (em _).symm
      · left
        rintro ⟨k, hk, -⟩
        exact hk (htab.complete _ _ hsub hget k)
    rw [admissible_receive_iff hbt, List.mem_singleton]
    constructor
    · exact Or.inl
    · exact fun h => h.elim id (fun ha => hno.resolve_left (not_not.mpr ha))
  | some items =>
    obtain ⟨hnd, hmem⟩ := htab.listed _ _ hsub items hget
    have hsame : ∀ k, uniqueKeys.get k =
        if k = groupedKey sub.inputSelector then some items else uniqueKeys.get k := by
      intro k
      split_ifs with hk
      · rw [hk, hget]
      · rfl
    by_cases hin : ownValue sub r.id ∈ items
    · refine ⟨uniqueKeys, items, ?_, hsame, hnd, fun v => ?_⟩
      · dsimp only
        split_ifs with hall
        · rfl
        · have hown : ownValue sub r.id = .text r.id := by simp [ownValue, hall]
          rw [hown] at hin ⊢
          rw [inList_text (fun v hv => text_of_admissible ((hmem v).mp hv))]
          simp [hin]
      · rw [admissible_receive_iff hbt, hmem]
        exact ⟨Or.inr, fun h => h.elim (fun he => he ▸ (hmem _).mp hin) id⟩
    · have hall : sub.inputSelector.groupBy ≠ "ALL" := by
        intro hall
        exact hin ((hmem _).mpr (by simp [Admissible, ownValue, hall]))
      have hown : ownValue sub r.id = .text r.id := by simp [ownValue, hall]
      refine ⟨_, items ++ [ownValue sub r.id], ?_, hset _, ?_, fun v => ?_⟩
      · dsimp only
        rw [if_neg hall, hown]
        rw [hown] at hin
        rw [inList_text (fun v hv => text_of_admissible ((hmem v).mp hv))]
        simp [hin]
      · exact List.nodup_append.mpr ⟨hnd, List.nodup_singleton _, fun a ha b hb hab =>
          hin (List.mem_singleton.mp hb ▸ hab ▸ ha)⟩
      · rw [List.mem_append, hmem, List.mem_singleton, admissible_receive_iff hbt, or_comm]

theorem tabulated_receive (hs : Streams subscriptions) (htab : Tabulated subscriptions uniqueKeys)
    (hsub : subscriptions.get subID = some sub) {next : GoMap (List GroupValue)}
    {values : List GroupValue}
    (hnext : ∀ k, next.get k =
      if k = groupedKey sub.inputSelector then some values else uniqueKeys.get k)
    (hnd : values.Nodup) (hmem : ∀ v, v ∈ values ↔ Admissible (receive sub r) v) :
    Tabulated (subscriptions.set subID (receive sub r)) next := by
  have hkey : ∀ k other, k ≠ subID → subscriptions.get k = some other →
      groupedKey other.inputSelector ≠ groupedKey sub.inputSelector :=
    fun k other hk hother heq => hk (hs.key_injective hother hsub heq)
  refine ⟨?_, ?_, ?_⟩
  · intro k other hother vs hvs
    rw [GoMap.get_set] at hother
    split_ifs at hother with hk
    · obtain rfl := Option.some.inj hother
      rw [receive_inputSelector, hnext, if_pos rfl] at hvs
      rw [← Option.some.inj hvs]
      exact ⟨hnd, hmem⟩
    · rw [hnext, if_neg (hkey k other hk hother)] at hvs
      exact htab.listed k other hother vs hvs
  · intro k other hother hnone
    rw [GoMap.get_set] at hother
    split_ifs at hother with hk
    · obtain rfl := Option.some.inj hother
      rw [receive_inputSelector, hnext, if_pos rfl] at hnone
      cases hnone
    · rw [hnext, if_neg (hkey k other hk hother)] at hnone
      exact htab.complete k other hother hnone
  · intro key vs hvs
    rw [hnext] at hvs
    split_ifs at hvs with hk
    · exact ⟨subID, _, GoMap.get_set_self _ _ _, by rw [hk, receive_inputSelector]⟩
    · obtain ⟨k, other, hother, hkeyeq⟩ := htab.only key vs hvs
      have hne : k ≠ subID := by
        rintro rfl
        rw [hsub] at hother
        exact hk (by rw [hkeyeq, Option.some.inj hother])
      exact ⟨k, other, by rw [GoMap.get_set_ne _ _ hne, hother], hkeyeq⟩

end FogFlow.Master
