import FogFlow.Master.MetadataGroups

namespace FogFlow.Master.GroupPanics

open Ngsi Datamodel Loop Execution

-- the value that the stream groups the entity by; without a grouping there is one group
def groupValue (selector : InputStreamConfig) (r : EntityRegistration) : GroupValue :=
  if selector.groupBy = "ALL" then .text "ALL" else groupedValue selector.groupBy r

def HeldAs (subscriptions : GoMap InputSubscription) (sub : InputSubscription)
    (r : EntityRegistration) : Prop :=
  ∃ subID k, subscriptions.get subID = some sub ∧ sub.receivedEntityRegistrations.get k = some r

-- the groups of the entity and the search for each of them, in every order of the map loops
def GroupsSearched (subscriptions : GoMap InputSubscription)
    (uniqueKeys : GoMap (List GroupValue)) (sub : InputSubscription) (entityID : String) : Prop :=
  ∀ keyRank, ∃ groups, getRelevantGroups keyRank uniqueKeys sub entityID = .ok groups ∧
    ∀ g ∈ groups, ∀ subRank regRank, Ends (searchRelevantEntities subscriptions g subRank regRank)

def afterReceipt (flow : FogFlow) (e : Event) (sub : InputSubscription) :
    GoMap InputSubscription :=
  flow.subscriptions.set e.subID (receive sub e.registeredEntity)

-- none of the functions panics when the event is handled
structure CallsEnd (flow : FogFlow) (e : Event) : Prop where
  received : ∀ sub, flow.subscriptions.get e.subID = some sub → e.entityAction ≠ .delete →
    ∃ uniqueKeys, updateGroupedKeyValueTable flow.uniqueKeys (receive sub e.registeredEntity)
        (receivedKey sub e.registeredEntity.id) = .ok uniqueKeys ∧
      (checkInputAvailability (afterReceipt flow e sub) = true →
        GroupsSearched (afterReceipt flow e sub) uniqueKeys (receive sub e.registeredEntity)
          (receivedKey sub e.registeredEntity.id))
  deleted : ∀ sub, flow.subscriptions.get e.subID = some sub → e.entityAction = .delete →
    sub.receivedEntityRegistrations.get (receivedKey sub e.registeredEntity.id) ≠ none →
    ∀ keyRank, Ends (getRelevantGroups keyRank flow.uniqueKeys sub
      (receivedKey sub e.registeredEntity.id))

-- what makes the comparisons and the look-up of the location go through
structure Searchable (subscriptions : GoMap InputSubscription) (own : InputSubscription)
    (value : GroupValue) : Prop where
  comparable : Comparable value
  others : ∀ sub r, HeldAs subscriptions sub r →
    groupedKey sub.inputSelector ≠ groupedKey own.inputSelector →
    Comparable (groupValue sub.inputSelector r)
  located : ∀ sub r, HeldAs subscriptions sub r →
    (groupedKey sub.inputSelector = groupedKey own.inputSelector →
      sub.inputSelector.groupBy = "ALL" ∨ groupValue sub.inputSelector r = value) →
    Ends r.getLocation

-- the values are the ones after the registration has been merged into what was held before
def Comparing (flow : FogFlow) (e : Event) : Prop :=
  ∀ sub r, flow.subscriptions.get e.subID = some sub → e.entityAction ≠ .delete →
    (receive sub e.registeredEntity).receivedEntityRegistrations.get
      (receivedKey sub e.registeredEntity.id) = some r →
    (∀ items, flow.uniqueKeys.get (groupedKey sub.inputSelector) = some items →
      ∀ item ∈ items, Ends (item.goEq (groupValue sub.inputSelector r))) ∧
    (checkInputAvailability (afterReceipt flow e sub) = true →
      Searchable (afterReceipt flow e sub) (receive sub e.registeredEntity)
        (groupValue sub.inputSelector r))

section Values

variable {v w : GroupValue}

theorem value_goEq_left {a : Value} (h : a.goEq a = .ok true) (b : Value) :
    a.goEq b = .ok (decide (a = b)) := by
  cases a with
  | array _ | object _ | polygon _ | raw _ => simp [Value.goEq] at h
  | null | bool _ | number _ | string _ | point _ | circle _ | segment _ | nearBy _ =>
    cases b <;> rfl

theorem value_goEq_self {a : Value} (h : Ends (a.goEq a)) : a.goEq a = .ok true := by
  cases a with
  | array _ | object _ | polygon _ | raw _ => simp [Value.goEq] at h
  | null | bool _ | number _ | string _ | point _ | circle _ | segment _ | nearBy _ =>
    simp [Value.goEq]

theorem value_eq_of_goEq {a b : Value} (h : a.goEq b = .ok true) : a = b := by
  unfold Value.goEq at h
  split at h
  · cases h
  · cases h
  · cases h
  · cases h
  · simpa using h

theorem metadata_eq_of_goEq {a b : ContextMetadata} (h : a.goEq b = .ok true) : a = b := by
  obtain ⟨name, type, value, cordinates⟩ := a
  unfold ContextMetadata.goEq at h
  by_cases hname : name = b.name
  · by_cases htype : type = b.type
    · rw [if_neg (not_not.mpr hname), if_neg (not_not.mpr htype)] at h
      obtain ⟨same, hvalue, h⟩ := bind_eq_ok.mp h
      cases same with
      | false => cases h
      | true =>
        have hsame : value = b.value := value_eq_of_goEq hvalue
        have hplace : cordinates = b.cordinates := value_eq_of_goEq h
        rw [hname, htype, hsame, hplace]
    · rw [if_neg (not_not.mpr hname), if_pos htype] at h
      cases h
  · rw [if_pos hname] at h
    cases h

theorem eq_of_goEq (h : v.goEq w = .ok true) : v = w := by
  cases v with
  | text a =>
    cases w with
    | text b => simpa [GroupValue.goEq] using h
    | metadata b => simp [GroupValue.goEq] at h
  | metadata a =>
    cases w with
    | text b => simp [GroupValue.goEq] at h
    | metadata b => rw [metadata_eq_of_goEq h]

theorem metadata_goEq_parts {a : ContextMetadata} : a.goEq a = .ok true ↔
    a.value.goEq a.value = .ok true ∧ a.cordinates.goEq a.cordinates = .ok true := by
  simp only [ContextMetadata.goEq, ne_eq, not_true_eq_false, if_false]
  constructor
  · intro h
    obtain ⟨same, hsame, h⟩ := bind_eq_ok.mp h
    cases same with
    | true => exact ⟨hsame, h⟩
    | false => cases h
  · rintro ⟨hvalue, hcordinates⟩
    rw [hvalue, ok_bind]
    exact hcordinates

theorem comparable_of_ends (h : Ends (v.goEq v)) : Comparable v := by
  cases v with
  | text s => simp [Comparable, GroupValue.goEq]
  | metadata a =>
    have ha : Ends (a.goEq a) := h
    simp only [ContextMetadata.goEq, ne_eq, not_true_eq_false, if_false] at ha
    obtain ⟨same, hsame, hrest⟩ := ends_bind.mp ha
    have hvalue := value_goEq_self ⟨same, hsame⟩
    obtain rfl : same = true := Except.ok.inj (hsame.symm.trans hvalue)
    exact metadata_goEq_parts.mpr ⟨hvalue, value_goEq_self hrest⟩

theorem ends_goEq_left (h : Comparable v) (w : GroupValue) : Ends (v.goEq w) := by
  cases v with
  | text a => cases w <;> exact ends_ok _
  | metadata a =>
    cases w with
    | text b => exact ends_ok _
    | metadata b =>
      obtain ⟨hvalue, hcordinates⟩ := metadata_goEq_parts.mp h
      change Ends (a.goEq b)
      simp only [ContextMetadata.goEq, value_goEq_left hvalue, value_goEq_left hcordinates]
      split_ifs
      · exact ends_ok _
      · exact ends_ok _
      · rw [ok_bind]
        split_ifs <;> exact ends_ok _

theorem ends_goEq_right (h : Comparable v) (w : GroupValue) : Ends (w.goEq v) :=
  ⟨_, goEq_eq h w⟩

end Values

section Search

variable {subscriptions : GoMap InputSubscription} {uniqueKeys : GoMap (List GroupValue)}
  {selector : InputStreamConfig} {sub own : InputSubscription} {r : EntityRegistration}
  {g : GroupInfo} {v w : GroupValue}

theorem isMatched_of_get (hget : g.get (groupedKey selector) = some w) :
    isMatched r (restrictionsOf selector g) =
      if selector.groupBy = "ALL" then .ok true else (groupedValue selector.groupBy r).goEq w := by
  have hentries : ((∅ : GoMap GroupValue).set selector.groupBy w).entries =
      [⟨selector.groupBy, w⟩] := rfl
  rw [restrictionsOf, hget]
  simp only [isMatched, hentries, List.foldlM_cons, List.foldlM_nil]
  split_ifs with hall
  · rfl
  · cases (groupedValue selector.groupBy r).goEq w <;> rfl

-- the registration can be compared with the group, and if it matches it has a location
def Found (selector : InputStreamConfig) (g : GroupInfo) (r : EntityRegistration) : Prop :=
  Ends (isMatched r (restrictionsOf selector g)) ∧
    (isMatched r (restrictionsOf selector g) = .ok true → Ends r.getLocation)

theorem ends_searchReceived (h : Found selector g r) (entities : List InputEntity) :
    Ends (searchReceived selector g entities r) := by
  obtain ⟨⟨matched, hmatched⟩, hlocation⟩ := h
  rw [searchReceived, hmatched, ok_bind]
  cases matched with
  | false => exact ends_ok entities
  | true =>
    obtain ⟨location, hloc⟩ := hlocation hmatched
    rw [if_pos rfl, hloc, ok_bind]
    split_ifs <;> exact ends_ok _

theorem found_of_ends (h : Ends (searchReceived selector g [] r)) : Found selector g r := by
  obtain ⟨matched, hmatched, hrest⟩ := ends_bind.mp h
  refine ⟨⟨matched, hmatched⟩, fun htrue => ?_⟩
  obtain rfl : matched = true := Except.ok.inj (hmatched.symm.trans htrue)
  simp only [if_true, List.any_nil, Bool.and_false, Bool.false_eq_true, if_false] at hrest
  exact ends_bind_ok.mp hrest

-- some order of the loops visits a given registration first
theorem ends_search_iff :
    (∀ subRank regRank, Ends (searchRelevantEntities subscriptions g subRank regRank)) ↔
      ∀ sub r, HeldAs subscriptions sub r → Found sub.inputSelector g r := by
  constructor
  · rintro h sub r ⟨subID, k, hsub, hr⟩
    obtain ⟨subs, hsubs⟩ := GoMap.range_starting hsub
    obtain ⟨regs, hregs⟩ := GoMap.range_starting hr
    have hends := h (fun k' => if k' = subID then 0 else 1) (fun _ k' => if k' = k then 0 else 1)
    rw [searchRelevantEntities, hsubs, List.foldlM_cons] at hends
    obtain ⟨entities, hentities, -⟩ := ends_bind.mp hends
    rw [hregs, List.foldlM_cons] at hentities
    obtain ⟨first, hfirst, -⟩ := bind_eq_ok.mp hentities
    exact found_of_ends ⟨first, hfirst⟩
  · intro h subRank regRank
    refine ends_foldlM (fun entities inputSub hsub => ends_foldlM (fun entities e he => ?_))
    exact ends_searchReceived (h inputSub.2 e.2
      ⟨inputSub.1, e.1, GoMap.mem_range.mp hsub, GoMap.mem_range.mp he⟩) entities

-- what the table holds for the streams that have received something
structure Tabled (subscriptions : GoMap InputSubscription) (uniqueKeys : GoMap (List GroupValue)) :
    Prop where
  nonempty : ∀ key items, uniqueKeys.get key = some items → items ≠ []
  held : ∀ sub r, HeldAs subscriptions sub r →
    ∃ items, uniqueKeys.get (groupedKey sub.inputSelector) = some items ∧
      (sub.inputSelector.groupBy ≠ "ALL" → groupValue sub.inputSelector r ∈ items)

theorem picks_head {key : String} (hne : ∀ key items, uniqueKeys.get key = some items → items ≠ [])
    (keyRank : String → Nat) {f : String → Option GroupValue} (hown : f key = some v)
    (hlisted : ∀ k items, uniqueKeys.get k = some items → k ≠ key →
      (∃ w ∈ items, f k = some w) ∨ f k = items.head?) :
    Picks key v (uniqueKeys.range keyRank) f := by
  refine ⟨hown, fun k items hk hmem => ?_⟩
  have hget := GoMap.mem_range.mp hmem
  rcases hlisted k items hget hk with hw | hhead
  · exact hw
  · obtain ⟨w, hw⟩ := Option.isSome_iff_exists.mp (List.isSome_head?.mpr (hne k items hget))
    exact ⟨w, List.mem_of_head? hw, hhead.trans hw⟩

theorem exists_group (hne : ∀ key items, uniqueKeys.get key = some items → items ≠ [])
    (keyRank : String → Nat) (key : String) (v : GroupValue) :
    ∃ g ∈ product key v (uniqueKeys.range keyRank), g.get key = some v := by
  have hpicks : Picks key v (uniqueKeys.range keyRank) (fun k =>
      if k = key then some v else ((uniqueKeys.get k).getD []).head?) := by
    refine picks_head hne keyRank (if_pos rfl) (fun k items hget hk => .inr ?_)
    rw [if_neg hk, hget]
    rfl
  obtain ⟨g, hg, -⟩ := exists_mem_product (GoMap.range_keys_nodup keyRank uniqueKeys) hpicks
  exact ⟨g, hg, (picks_product (GoMap.range_keys_nodup keyRank uniqueKeys) hg).1.own⟩

theorem exists_group_with (hne : ∀ key items, uniqueKeys.get key = some items → items ≠ [])
    (keyRank : String → Nat) {key k : String} (hk : k ≠ key) {items : List GroupValue}
    (hget : uniqueKeys.get k = some items) (hw : w ∈ items) (v : GroupValue) :
    ∃ g ∈ product key v (uniqueKeys.range keyRank), g.get k = some w := by
  have hpicks : Picks key v (uniqueKeys.range keyRank) (fun k' =>
      if k' = key then some v else if k' = k then some w
      else ((uniqueKeys.get k').getD []).head?) := by
    refine picks_head hne keyRank (if_pos rfl) (fun k' items' hget' hk' => ?_)
    by_cases heq : k' = k
    · subst heq
      obtain rfl := Option.some.inj (hget.symm.trans hget')
      exact .inl ⟨w, hw, by rw [if_neg hk', if_pos rfl]⟩
    · right
      rw [if_neg hk', if_neg heq, hget']
      rfl
  obtain ⟨g, hg, hagree⟩ := exists_mem_product (GoMap.range_keys_nodup keyRank uniqueKeys) hpicks
  have hmem : k ∈ (uniqueKeys.range keyRank).map (fun e => e.1) :=
    List.mem_map.mpr ⟨⟨k, items⟩, GoMap.mem_range.mpr hget, rfl⟩
  refine ⟨g, hg, ?_⟩
  rw [hagree k (.inr hmem), if_neg hk, if_pos rfl]

theorem valueOf_groupValue {k : String} (hr : sub.receivedEntityRegistrations.get k = some r) :
    valueOf sub k = .ok (groupValue sub.inputSelector r) := by
  rw [valueOf, groupValue, hr]
  split_ifs
  · rfl
  · rfl

-- a registration that a group selects by its own value has a location
theorem located_of_found (hget : g.get (groupedKey selector) = some w)
    (hw : selector.groupBy = "ALL" ∨ groupValue selector r = w) (hcomparable : Comparable w)
    (h : Found selector g r) : Ends r.getLocation := by
  refine h.2 ?_
  rw [isMatched_of_get hget]
  split_ifs with hall
  · rfl
  · have heq : groupedValue selector.groupBy r = w := by
      have hvalue := hw.resolve_left hall
      rwa [groupValue, if_neg hall] at hvalue
    rw [goEq_eq hcomparable, heq, decide_eq_true rfl]

theorem comparable_of_found (hget : g.get (groupedKey selector) = some (groupValue selector r))
    (h : Found selector g r) : Comparable (groupValue selector r) := by
  by_cases hall : selector.groupBy = "ALL"
  · rw [groupValue, if_pos hall]
    rfl
  · have hends := h.1
    rw [isMatched_of_get hget, if_neg hall] at hends
    refine comparable_of_ends ?_
    rwa [groupValue, if_neg hall] at hends ⊢

theorem searchable_of_groupsSearched (ht : Tabled subscriptions uniqueKeys) {k : String}
    (hown : HeldAs subscriptions own r) (hr : own.receivedEntityRegistrations.get k = some r)
    (h : GroupsSearched subscriptions uniqueKeys own k) :
    Searchable subscriptions own (groupValue own.inputSelector r) := by
  obtain ⟨groups, hgroups, hsearch⟩ := h (fun _ => 0)
  rw [getRelevantGroups_eq (valueOf_groupValue hr)] at hgroups
  obtain rfl := Except.ok.inj hgroups
  have hfound {g : GroupInfo} (hg : g ∈ product (groupedKey own.inputSelector)
      (groupValue own.inputSelector r) (uniqueKeys.range (fun _ => 0))) {sub : InputSubscription}
      {r' : EntityRegistration} (hheld : HeldAs subscriptions sub r') : Found sub.inputSelector g r' :=
    ends_search_iff.mp (hsearch g hg) sub r' hheld
  obtain ⟨g, hg, hget⟩ := exists_group ht.nonempty (fun _ => 0) (groupedKey own.inputSelector)
    (groupValue own.inputSelector r)
  have hcomparable : Comparable (groupValue own.inputSelector r) :=
    comparable_of_found hget (hfound hg hown)
  have hothers : ∀ sub r', HeldAs subscriptions sub r' →
      groupedKey sub.inputSelector ≠ groupedKey own.inputSelector →
      Comparable (groupValue sub.inputSelector r') := by
    intro sub r' hheld hkey
    by_cases hall : sub.inputSelector.groupBy = "ALL"
    · rw [groupValue, if_pos hall]
      rfl
    · obtain ⟨items, hitems, hmem⟩ := ht.held sub r' hheld
      obtain ⟨g', hg', hget'⟩ := exists_group_with ht.nonempty (fun _ => 0) hkey hitems
        (hmem hall) (groupValue own.inputSelector r)
      exact comparable_of_found hget' (hfound hg' hheld)
  refine ⟨hcomparable, hothers, fun sub r' hheld hcond => ?_⟩
  by_cases hkey : groupedKey sub.inputSelector = groupedKey own.inputSelector
  · exact located_of_found (hkey ▸ hget) (hcond hkey) hcomparable (hfound hg hheld)
  · obtain ⟨items, hitems, hmem⟩ := ht.held sub r' hheld
    by_cases hall : sub.inputSelector.groupBy = "ALL"
    · obtain ⟨w, hw⟩ := List.exists_mem_of_ne_nil items (ht.nonempty _ _ hitems)
      obtain ⟨g', hg', hget'⟩ := exists_group_with ht.nonempty (fun _ => 0) hkey hitems hw
        (groupValue own.inputSelector r)
      refine (hfound hg' hheld).2 ?_
      rw [isMatched_of_get hget', if_pos hall]
    · obtain ⟨g', hg', hget'⟩ := exists_group_with ht.nonempty (fun _ => 0) hkey hitems
        (hmem hall) (groupValue own.inputSelector r)
      exact located_of_found hget' (.inr rfl) (hothers sub r' hheld hkey) (hfound hg' hheld)

theorem groupsSearched_of_searchable (ht : Tabled subscriptions uniqueKeys) {k : String}
    (hr : own.receivedEntityRegistrations.get k = some r)
    (h : Searchable subscriptions own (groupValue own.inputSelector r)) :
    GroupsSearched subscriptions uniqueKeys own k := by
  intro keyRank
  refine ⟨_, getRelevantGroups_eq (valueOf_groupValue hr), fun g hg => ?_⟩
  obtain ⟨hpicks, -⟩ := picks_product (GoMap.range_keys_nodup keyRank uniqueKeys) hg
  refine ends_search_iff.mpr (fun sub r' hheld => ?_)
  by_cases hkey : groupedKey sub.inputSelector = groupedKey own.inputSelector
  · have hget : g.get (groupedKey sub.inputSelector) =
        some (groupValue own.inputSelector r) := hkey ▸ hpicks.own
    rw [Found, isMatched_of_get hget]
    split_ifs with hall
    · exact ⟨ends_ok true, fun _ => h.located sub r' hheld (fun _ => .inl hall)⟩
    · refine ⟨ends_goEq_right h.comparable _, fun hmatched => h.located sub r' hheld (fun _ => ?_)⟩
      right
      rw [groupValue, if_neg hall]
      exact eq_of_goEq hmatched
  · obtain ⟨items, hitems, -⟩ := ht.held sub r' hheld
    obtain ⟨w, -, hget⟩ := hpicks.listed _ items hkey (GoMap.mem_range.mpr hitems)
    have hlocated := h.located sub r' hheld (fun heq => absurd heq hkey)
    rw [Found, isMatched_of_get hget]
    split_ifs with hall
    · exact ⟨ends_ok true, fun _ => hlocated⟩
    · have hcomparable := h.others sub r' hheld hkey
      rw [groupValue, if_neg hall] at hcomparable
      exact ⟨ends_goEq_left hcomparable w, fun _ => hlocated⟩

end Search

section Table

variable {subscriptions : GoMap InputSubscription} {uniqueKeys next : GoMap (List GroupValue)}
  {sub : InputSubscription} {r : EntityRegistration} {v : GroupValue} {k : String}

-- a value that cannot be compared equals no item, so the loop gets to all of them
theorem ends_inList_iff {items : List GroupValue} :
    Ends (inList v items) ↔ ∀ item ∈ items, Ends (item.goEq v) := by
  by_cases hv : Comparable v
  · exact iff_of_true ⟨_, inList_eq hv items⟩ (fun item _ => ends_goEq_right hv item)
  · induction items with
    | nil => simp [inList]
    | cons item items ih =>
      rw [inList, ends_bind, List.forall_mem_cons, ← ih]
      constructor
      · rintro ⟨same, hsame, hrest⟩
        cases same with
        | true =>
          have hitem : item = v := eq_of_goEq hsame
          exact absurd (hitem ▸ hsame) hv
        | false => exact ⟨⟨false, hsame⟩, hrest⟩
      · rintro ⟨⟨same, hsame⟩, hrest⟩
        cases same with
        | true => exact ⟨true, hsame, ends_ok true⟩
        | false => exact ⟨false, hsame, hrest⟩

theorem mem_of_inList {items : List GroupValue} (h : inList v items = .ok true) : v ∈ items := by
  induction items with
  | nil => cases h
  | cons item items ih =>
    rw [inList] at h
    obtain ⟨same, hsame, hrest⟩ := bind_eq_ok.mp h
    cases same with
    | true => rw [eq_of_goEq hsame]; exact List.mem_cons_self
    | false => exact List.mem_cons_of_mem _ (ih hrest)

theorem ends_updateTable_iff (hr : sub.receivedEntityRegistrations.get k = some r) :
    Ends (updateGroupedKeyValueTable uniqueKeys sub k) ↔
      ∀ items, uniqueKeys.get (groupedKey sub.inputSelector) = some items →
        ∀ item ∈ items, Ends (item.goEq (groupValue sub.inputSelector r)) := by
  rw [updateGroupedKeyValueTable, valueOf_groupValue hr, ok_bind]
  cases hget : uniqueKeys.get (groupedKey sub.inputSelector) with
  | none => simp
  | some items =>
    by_cases hall : sub.inputSelector.groupBy = "ALL"
    · have htext : Comparable (groupValue sub.inputSelector r) := by
        rw [groupValue, if_pos hall]
        rfl
      simp only [hall, if_true]
      exact iff_of_true (ends_ok _) (fun _ _ item _ => ends_goEq_right htext item)
    · simp only [hall, if_false, ends_bind_ok, ends_inList_iff, Option.some.injEq,
        forall_eq']

-- the table keeps what it lists, and lists the new value too
structure Grown (uniqueKeys next : GoMap (List GroupValue)) (key : String)
    (listed : List GroupValue → Prop) : Prop where
  own : ∃ items, next.get key = some items ∧ listed items
  kept : ∀ k items, uniqueKeys.get k = some items →
    ∃ items', next.get k = some items' ∧ items ⊆ items'
  nonempty : (∀ k items, uniqueKeys.get k = some items → items ≠ []) →
    ∀ k items, next.get k = some items → items ≠ []

theorem grown_refl {key : String} {listed : List GroupValue → Prop} {items : List GroupValue}
    (hget : uniqueKeys.get key = some items) (hlisted : listed items) :
    Grown uniqueKeys uniqueKeys key listed :=
  ⟨⟨items, hget, hlisted⟩, fun _ items h => ⟨items, h, List.Subset.refl _⟩, fun h => h⟩

theorem grown_set {key : String} {listed : List GroupValue → Prop} {items : List GroupValue}
    (hold : ∀ old, uniqueKeys.get key = some old → old ⊆ items) (hne : items ≠ [])
    (hlisted : listed items) : Grown uniqueKeys (uniqueKeys.set key items) key listed := by
  refine ⟨⟨items, GoMap.get_set_self _ _ _, hlisted⟩, fun k old hk => ?_, fun hall k new hk => ?_⟩
  · rw [GoMap.get_set]
    split_ifs with heq
    · exact ⟨items, rfl, hold old (heq ▸ hk)⟩
    · exact ⟨old, hk, List.Subset.refl _⟩
  · rw [GoMap.get_set] at hk
    split_ifs at hk
    · rwa [← Option.some.inj hk]
    · exact hall k new hk

theorem grown_updateTable (hr : sub.receivedEntityRegistrations.get k = some r)
    (h : updateGroupedKeyValueTable uniqueKeys sub k = .ok next) :
    Grown uniqueKeys next (groupedKey sub.inputSelector) (fun items =>
      sub.inputSelector.groupBy ≠ "ALL" → groupValue sub.inputSelector r ∈ items) := by
  rw [updateGroupedKeyValueTable, valueOf_groupValue hr, ok_bind] at h
  cases hget : uniqueKeys.get (groupedKey sub.inputSelector) with
  | none =>
    simp only [hget, Except.ok.injEq] at h
    rw [← h]
    exact grown_set (by simp [hget]) (by simp) (by simp)
  | some items =>
    simp only [hget] at h
    split_ifs at h with hall
    · rw [← Except.ok.inj h]
      exact grown_refl hget (fun hne => absurd hall hne)
    · obtain ⟨found, hfound, h⟩ := bind_eq_ok.mp h
      rw [← Except.ok.inj h]
      cases found with
      | true => exact grown_refl hget (fun _ => mem_of_inList hfound)
      | false => exact grown_set (by simp [hget]) (by simp) (by simp)

end Table

section Run

variable {marshal : GroupValue → String} {subscriptions : GoMap InputSubscription}
  {uniqueKeys next : GoMap (List GroupValue)} {flow : FogFlow} {subID : String}
  {sub : InputSubscription} {r : EntityRegistration} {e : Event}

theorem heldAs_receive {other : InputSubscription} {r' : EntityRegistration}
    (hsub : subscriptions.get subID = some sub)
    (h : HeldAs (subscriptions.set subID (receive sub r)) other r') :
    (other = receive sub r ∧
      (receive sub r).receivedEntityRegistrations.get (receivedKey sub r.id) = some r') ∨
    ∃ before, HeldAs subscriptions before r' ∧ before.inputSelector = other.inputSelector := by
  obtain ⟨subID', k, hother, hr'⟩ := h
  rw [GoMap.get_set] at hother
  split_ifs at hother
  · obtain rfl := Option.some.inj hother
    by_cases hk : k = receivedKey sub r.id
    · exact .inl ⟨rfl, hk ▸ hr'⟩
    · rw [get_receive_ne hk] at hr'
      exact .inr ⟨sub, ⟨subID, k, hsub, hr'⟩, (receive_inputSelector sub r).symm⟩
  · exact .inr ⟨other, ⟨subID', k, hother, hr'⟩, rfl⟩

theorem heldAs_forget {other : InputSubscription} {entityID : String}
    (hsub : subscriptions.get subID = some sub)
    (h : HeldAs (subscriptions.set subID (forget sub entityID)) other r) :
    ∃ before, HeldAs subscriptions before r ∧ before.inputSelector = other.inputSelector := by
  obtain ⟨subID', k, hother, hr⟩ := h
  rw [GoMap.get_set] at hother
  split_ifs at hother
  · obtain rfl := Option.some.inj hother
    rw [get_forget] at hr
    split_ifs at hr
    exact ⟨sub, ⟨subID, k, hsub, hr⟩, rfl⟩
  · exact ⟨other, ⟨subID', k, hother, hr⟩, rfl⟩

theorem tabled_receive (ht : Tabled subscriptions uniqueKeys)
    (hsub : subscriptions.get subID = some sub)
    (h : updateGroupedKeyValueTable uniqueKeys (receive sub r) (receivedKey sub r.id) = .ok next) :
    Tabled (subscriptions.set subID (receive sub r)) next := by
  obtain ⟨merged, hmerged, -⟩ := get_receive_self sub r
  have hgrown := grown_updateTable hmerged h
  have hbefore {other : InputSubscription} {r' : EntityRegistration}
      (hheld : HeldAs subscriptions other r') :
      ∃ items, next.get (groupedKey other.inputSelector) = some items ∧
        (other.inputSelector.groupBy ≠ "ALL" → groupValue other.inputSelector r' ∈ items) := by
    obtain ⟨items, hitems, hmem⟩ := ht.held other r' hheld
    obtain ⟨items', hitems', hsubset⟩ := hgrown.kept _ items hitems
    exact ⟨items', hitems', fun hall => hsubset (hmem hall)⟩
  refine ⟨hgrown.nonempty ht.nonempty, fun other r' hheld => ?_⟩
  rcases heldAs_receive hsub hheld with ⟨rfl, hr'⟩ | ⟨before, hbefore', hselector⟩
  · obtain rfl := Option.some.inj (hmerged.symm.trans hr')
    exact hgrown.own
  · rw [← hselector]
    exact hbefore hbefore'

theorem tabled_forget (ht : Tabled subscriptions uniqueKeys)
    (hsub : subscriptions.get subID = some sub) (entityID : String) :
    Tabled (subscriptions.set subID (forget sub entityID)) uniqueKeys := by
  refine ⟨ht.nonempty, fun other r' hheld => ?_⟩
  obtain ⟨before, hbefore, hselector⟩ := heldAs_forget hsub hheld
  rw [← hselector]
  exact ht.held before r' hbefore

theorem tabled_orchestration {choices : Choices} {entityAction : EntityAction}
    {result : FogFlow × Actions} (ht : Tabled flow.subscriptions flow.uniqueKeys)
    (h : Orchestration marshal choices flow subID entityAction r result) :
    Tabled result.1.subscriptions result.1.uniqueKeys := by
  cases h with
  | unknown _ => exact ht
  | received sub uniqueKeys hsub _ hkeys _ => exact tabled_receive ht hsub hkeys
  | expanded sub uniqueKeys _ hsub _ hkeys _ hexp =>
    have hplan := planOnly_expandExecutionPlan hexp
    rw [hplan.subscriptions, hplan.uniqueKeys]
    exact tabled_receive ht hsub hkeys
  | absent _ _ _ _ => exact ht
  | removed _ _ _ _ _ _ hrem =>
    have hplan := planOnly_removeExecutionPlan hrem
    rw [hplan.subscriptions, hplan.uniqueKeys]
    exact ht
  | forgotten sub hsub _ _ _ => exact tabled_forget ht hsub _

theorem tabled_established (h : Established flow) : Tabled flow.subscriptions flow.uniqueKeys := by
  refine ⟨fun key items hget => ?_, ?_⟩
  · rw [h.uniqueKeys] at hget
    cases hget
  · rintro sub r ⟨subID, k, hsub, hr⟩
    rw [h.nothingReceived subID sub hsub] at hr
    cases hr

theorem tabled_exec {events : List Event} {flow₀ : FogFlow} (h₀ : Established flow₀)
    (hrun : exec (step marshal) flow₀ events = some flow) :
    Tabled flow.subscriptions flow.uniqueKeys := by
  refine exec_invariant (P := fun flow => Tabled flow.subscriptions flow.uniqueKeys) hrun
    (tabled_established h₀) (fun flow e next ht hstep => ?_)
  obtain ⟨orchestrated, commands, horch, hactions⟩ := step_eq_some.mp hstep
  have hscheduled := scheduled_runActions hactions
  rw [hscheduled.subscriptions, hscheduled.uniqueKeys]
  exact tabled_orchestration ht (orchestration_cases horch)

theorem callsEnd_iff (ht : Tabled flow.subscriptions flow.uniqueKeys) :
    CallsEnd flow e ↔ Comparing flow e := by
  constructor
  · intro h sub r hsub haction hr
    obtain ⟨uniqueKeys, hkeys, hsearched⟩ := h.received sub hsub haction
    have htable := (ends_updateTable_iff hr).mp ⟨uniqueKeys, hkeys⟩
    rw [receive_inputSelector] at htable
    refine ⟨htable, fun havail => ?_⟩
    have hheld : HeldAs (afterReceipt flow e sub) (receive sub e.registeredEntity) r :=
      ⟨e.subID, _, GoMap.get_set_self _ _ _, hr⟩
    have hsearchable := searchable_of_groupsSearched (tabled_receive ht hsub hkeys) hheld hr
      (hsearched havail)
    rwa [receive_inputSelector] at hsearchable
  · intro h
    refine ⟨fun sub hsub haction => ?_, fun sub hsub _ hheld keyRank => ?_⟩
    · obtain ⟨r, hr, -⟩ := get_receive_self sub e.registeredEntity
      obtain ⟨htable, hsearchable⟩ := h sub r hsub haction hr
      have hends : Ends (updateGroupedKeyValueTable flow.uniqueKeys
          (receive sub e.registeredEntity) (receivedKey sub e.registeredEntity.id)) := by
        rw [ends_updateTable_iff hr, receive_inputSelector]
        exact htable
      obtain ⟨uniqueKeys, hkeys⟩ := hends
      refine ⟨uniqueKeys, hkeys, fun havail => ?_⟩
      refine groupsSearched_of_searchable (tabled_receive ht hsub hkeys) hr ?_
      rw [receive_inputSelector]
      exact hsearchable havail
    · obtain ⟨r, hr⟩ := Option.ne_none_iff_exists'.mp hheld
      exact ⟨_, getRelevantGroups_eq (valueOf_groupValue hr)⟩

theorem deref_avoids {α : Type} {fault : Fault} (hfault : fault ≠ .nilDereference)
    (x : Option α) : Avoids fault (deref x) := by
  cases x with
  | none => exact fun h => hfault (Except.error.inj h).symm
  | some a => exact avoids_ok fault a

theorem mergeInput_avoids {fault : Fault} (hfault : fault ≠ .nilDereference)
    {selector : InputStreamConfig} {workerSelection : Nat → List Point → String}
    {state : TaskConfig × Actions} (entity : InputEntity × Nat) :
    Avoids fault (mergeInput flow selector workerSelection state entity) := by
  unfold mergeInput
  dsimp only
  split_ifs
  · exact avoids_bind (deref_avoids hfault _) (fun _ _ => avoids_ok fault _)
  · exact avoids_ok fault _
  · exact avoids_ok fault _

theorem expandGroup_avoids {fault : Fault} (hfault : fault ≠ .nilDereference) {choices : Choices}
    {selector : InputStreamConfig} {state : FogFlow × Actions} {group : GroupInfo × Nat}
    (hends : ∀ subRank regRank,
      Ends (searchRelevantEntities state.1.subscriptions group.1 subRank regRank)) :
    Avoids fault (expandGroup marshal choices selector state group) := by
  obtain ⟨entities, hentities⟩ := hends (choices.subRank group.2) (choices.regRank group.2)
  unfold expandGroup
  dsimp only
  rw [hentities, ok_bind]
  split
  · refine avoids_bind ?_ (fun _ _ => avoids_ok fault _)
    exact foldlM_avoids (I := fun _ _ => True) trivial
      (fun _ entity _ _ _ _ => ⟨mergeInput_avoids hfault entity, fun _ _ => trivial⟩)
  · exact avoids_ok fault _

theorem removeGroup_avoids {fault : Fault} (hfault : fault ≠ .nilDereference) {choices : Choices}
    {entityID : String} {state : FogFlow × Actions} (group : GroupInfo × Nat) :
    Avoids fault (removeGroup marshal choices entityID state group) := by
  unfold removeGroup
  dsimp only
  split
  · exact avoids_ok fault _
  · split_ifs
    · exact avoids_ok fault _
    · exact avoids_bind (deref_avoids hfault _) (fun _ _ => avoids_ok fault _)

theorem expandExecutionPlan_avoids {fault : Fault} (hfault : fault ≠ .nilDereference)
    {choices : Choices} {entityID : String}
    (h : GroupsSearched flow.subscriptions flow.uniqueKeys sub entityID) :
    Avoids fault (expandExecutionPlan marshal choices flow entityID sub) := by
  obtain ⟨groups, hgroups, hsearch⟩ := h choices.keyRank
  rw [expandExecutionPlan, hgroups, ok_bind]
  refine foldlM_avoids (I := fun _ state => state.1.subscriptions = flow.subscriptions) rfl
    (fun done group rest state hsplit hsubs => ?_)
  have hmem : group ∈ groups.zipIdx := by
    rw [hsplit]
    simp
  refine ⟨expandGroup_avoids hfault (fun subRank regRank => ?_), fun next hnext => ?_⟩
  · rw [hsubs]
    exact hsearch group.1 (List.fst_mem_of_mem_zipIdx hmem) subRank regRank
  · exact (planOnly_groupExpansion (expandGroup_cases hnext)).subscriptions.trans hsubs

-- these functions are the ones that the orchestration calls: it cannot panic elsewhere but at a
-- missing deployment
theorem orchestration_avoids {fault : Fault} (hfault : fault ≠ .nilDereference)
    (h : CallsEnd flow e) : Avoids fault (metadataDrivenTaskOrchestration marshal e.choices flow
      e.subID e.entityAction e.registeredEntity) := by
  unfold metadataDrivenTaskOrchestration
  cases hsub : flow.subscriptions.get e.subID with
  | none => exact avoids_ok fault _
  | some sub =>
    have hreceived : e.entityAction ≠ .delete → _ := h.received sub hsub
    have hdeleted : e.entityAction = .delete → _ := h.deleted sub hsub
    cases haction : e.entityAction with
    | create | update =>
      obtain ⟨uniqueKeys, hkeys, hsearched⟩ := hreceived (by simp [haction])
      simp only [hkeys, ok_bind]
      split_ifs with havail
      · exact expandExecutionPlan_avoids hfault (hsearched havail)
      · exact avoids_ok fault _
    | delete =>
      simp only
      cases hget : sub.receivedEntityRegistrations.get (receivedKey sub e.registeredEntity.id) with
      | none => exact avoids_ok fault _
      | some r =>
        obtain ⟨groups, hgroups⟩ := hdeleted haction (by simp [hget]) e.choices.keyRank
        simp only
        split_ifs
        · rw [removeExecutionPlan, hgroups, ok_bind]
          exact foldlM_avoids (I := fun _ _ => True) trivial
            (fun _ group _ _ _ _ => ⟨removeGroup_avoids hfault group, fun _ _ => trivial⟩)
        · exact avoids_ok fault _

end Run

theorem calls_end_iff {marshal : GroupValue → String} {flow₀ : FogFlow} {events : List Event}
    (h₀ : Established flow₀) :
    Meets (step marshal) CallsEnd flow₀ events ↔ Meets (step marshal) Comparing flow₀ events := by
  constructor
  · exact fun h js e flow hp hflow => (callsEnd_iff (tabled_exec h₀ hflow)).mp (h js e flow hp hflow)
  · exact fun h js e flow hp hflow => (callsEnd_iff (tabled_exec h₀ hflow)).mpr (h js e flow hp hflow)

def coloredCar (color : Value) : EntityRegistration :=
  { exampleEntity "car1" "Car" with
    metadataList := (∅ : GoMap ContextMetadata).set "color" ⟨"color", "string", color, .null⟩ }

def carAppears (color : Value) : Event :=
  ⟨"subCar", .create, coloredCar color, exampleChoices, fun _ _ => "worker"⟩

def carsByColor : FogFlow := exampleFlow [exampleStream "Car" "color"]

def carStream : InputSubscription := ⟨exampleStream "Car" "color", "subCar", ∅⟩

-- there is one stream, and it holds the car
theorem heldAs_carsByColor {color : Value} {sub : InputSubscription} {r : EntityRegistration}
    (h : HeldAs (afterReceipt carsByColor (carAppears color) carStream) sub r) :
    sub.inputSelector = exampleStream "Car" "color" ∧ r = coloredCar color := by
  obtain ⟨subID, k, hsub, hr⟩ := h
  rw [afterReceipt, GoMap.get_set] at hsub
  split_ifs at hsub with heq
  · obtain rfl := Option.some.inj hsub
    have hreceived : (receive carStream (carAppears color).registeredEntity) =
        ⟨exampleStream "Car" "color", "subCar", (∅ : GoMap EntityRegistration).set "*"
          (coloredCar color)⟩ := rfl
    rw [hreceived, GoMap.get_set] at hr
    split_ifs at hr
    · exact ⟨rfl, (Option.some.inj hr).symm⟩
    · cases hr
  · have hnone : carsByColor.subscriptions.get subID = none := GoMap.get_set_ne _ _ heq
    rw [hnone] at hsub
    cases hsub

theorem red_car_received :
    Meets (step exampleMarshal) CallsEnd carsByColor [carAppears (.string "red")] := by
  refine (calls_end_iff (established_exampleFlow _)).mpr (meets_singleton.mpr ?_)
  intro sub r hsub _ hr
  obtain rfl : carStream = sub := Option.some.inj hsub
  obtain rfl : coloredCar (.string "red") = r := Option.some.inj hr
  refine ⟨fun items hitems => (by cases hitems), fun _ => ⟨rfl, fun sub r hheld hkey => ?_,
    fun sub r hheld _ => ?_⟩⟩
  · rw [(heldAs_carsByColor hheld).1] at hkey
    exact absurd rfl hkey
  · rw [(heldAs_carsByColor hheld).2]
    exact ⟨_, rfl⟩

-- the colors of the car are compared with themselves
theorem colors_end_master :
    ¬ Meets (step exampleMarshal) CallsEnd carsByColor
        [carAppears (.array [.string "red", .string "blue"])] ∧
      handleUpdate exampleMarshal carsByColor
        (carAppears (.array [.string "red", .string "blue"])) = .error .uncomparable := by
  refine ⟨fun h => ?_, rfl⟩
  have hcomparing : Comparing carsByColor (carAppears (.array [.string "red", .string "blue"])) :=
    (callsEnd_iff (tabled_established (established_exampleFlow _))).mp (meets_singleton.mp h)
  obtain ⟨-, hsearchable⟩ := hcomparing carStream _ rfl (by simp [carAppears]) rfl
  have hself := (hsearchable (by decide)).comparable
  cases hself

end FogFlow.Master.GroupPanics
