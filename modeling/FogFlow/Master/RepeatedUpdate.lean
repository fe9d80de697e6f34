import FogFlow.Master.Relocation

namespace FogFlow.Master.RepeatedUpdate

open Ngsi Datamodel Loop Execution GroupPanics Relocation

-- the metadata of a registration that the master has built stand under their names
def MetadataNamed (r : EntityRegistration) : Prop :=
  ∀ name m, r.metadataList.get name = some m → m.name = name

def HeldNamed (subscriptions : GoMap InputSubscription) : Prop :=
  ∀ sub r, HeldAs subscriptions sub r → MetadataNamed r

structure Alike (r r' : EntityRegistration) : Prop where
  id : r'.id = r.id
  type : r'.type = r.type
  metadata : ∀ name, r'.metadataList.get name = r.metadataList.get name

-- a group of the event takes its value, and one of the listed values under every other key
structure EventGroup (uniqueKeys : GoMap (List GroupValue)) (key : String) (value : GroupValue)
    (g : GroupInfo) : Prop where
  own : g.get key = some value
  listed : ∀ k items, k ≠ key → uniqueKeys.get k = some items → ∃ w ∈ items, g.get k = some w
  absent : ∀ k, k ≠ key → uniqueKeys.get k = none → g.get k = none

-- the groups with one task find every id at one place, and one visit of each entity brings the
-- task there
structure Traceable (marshal : GroupValue → String) (subscriptions : GoMap InputSubscription)
    (selector : InputStreamConfig) (groups : GroupInfo → Prop) (executionPlan : GoMap TaskConfig) :
    Prop where
  unskipped : ∀ g, groups g → Unskipped subscriptions g
  placed : ∀ g g' x x', groups g → groups g' → groupHash marshal g = groupHash marshal g' →
    Selected subscriptions g x → Selected subscriptions g' x' → x.id = x'.id →
      x.location = x'.location
  follows : ∀ g task x, groups g → executionPlan.get (groupHash marshal g) = some task →
    Selected subscriptions g x → Follows selector task x

def Settling (marshal : GroupValue → String) (flow : FogFlow) (e : Event) : Prop :=
  ∀ sub r, flow.subscriptions.get e.subID = some sub →
    (receive sub e.registeredEntity).receivedEntityRegistrations.get
      (receivedKey sub e.registeredEntity.id) = some r →
    Comparable (groupValue sub.inputSelector r) ∧
    (checkInputAvailability (afterReceipt flow e sub) = true →
      Traceable marshal (afterReceipt flow e sub) sub.inputSelector
        (EventGroup flow.uniqueKeys (groupedKey sub.inputSelector)
          (groupValue sub.inputSelector r)) flow.executionPlan)

-- the registration is processed once more, in any order of the map loops
def Quiet (marshal : GroupValue → String) (choices : Choices) (flow : FogFlow) (e : Event) :
    Prop :=
  ∃ next, metadataDrivenTaskOrchestration marshal choices flow e.subID .update
      e.registeredEntity = .ok (next, []) ∧
    ∀ k, next.executionPlan.get k = flow.executionPlan.get k

section Registration

variable {r r' old new : EntityRegistration}

theorem get_metadata_update (old new : EntityRegistration) (name : String) :
    (old.update new).metadataList.get name =
      ((Named.named ContextMetadata.name name new.metadataList.values).getLast?).or
        (old.metadataList.get name) :=
  Named.get_foldl_set ContextMetadata.name old.metadataList new.metadataList.values

theorem last_named {name : String} {m : ContextMetadata} (h : MetadataNamed new)
    (hlast : (Named.named ContextMetadata.name name new.metadataList.values).getLast? = some m) :
    new.metadataList.get name = some m := by
  obtain ⟨hin, hname⟩ := Named.mem_named.mp (List.mem_of_getLast? hlast)
  obtain ⟨k, hk⟩ := GoMap.mem_values.mp hin
  rwa [← hname, h k m hk]

theorem metadataNamed_update (hold : MetadataNamed old) (hnew : MetadataNamed new) :
    MetadataNamed (old.update new) := by
  intro name m hget
  rw [get_metadata_update, Option.or_eq_some_iff] at hget
  rcases hget with hlast | ⟨-, hget⟩
  · exact hnew name m (last_named hnew hlast)
  · exact hold name m hget

theorem alike_refl (r : EntityRegistration) : Alike r r := ⟨rfl, rfl, fun _ => rfl⟩

theorem alike_update_self (h : MetadataNamed r) : Alike r (r.update r) := by
  refine ⟨rfl, ite_id r.type, fun name => ?_⟩
  rw [get_metadata_update]
  cases hlast : (Named.named ContextMetadata.name name r.metadataList.values).getLast? with
  | none => rfl
  | some m => exact (last_named h hlast).symm

theorem alike_update_again (old new : EntityRegistration) :
    Alike (old.update new) ((old.update new).update new) := by
  refine ⟨rfl, ?_, fun name => ?_⟩
  · change (if new.type ≠ "" then new.type else if new.type ≠ "" then new.type else old.type) =
      if new.type ≠ "" then new.type else old.type
    split_ifs <;> rfl
  · rw [get_metadata_update, get_metadata_update, ← Option.or_assoc, Option.or_self]

theorem groupedValue_alike (h : Alike r r') (groupKey : String) :
    groupedValue groupKey r' = groupedValue groupKey r := by
  simp only [groupedValue, h.id, h.type, h.metadata]

theorem groupValue_alike (h : Alike r r') (selector : InputStreamConfig) :
    groupValue selector r' = groupValue selector r := by
  rw [groupValue, groupValue, groupedValue_alike h]

theorem isMatched_alike (h : Alike r r') (restrictions : GoMap GroupValue) :
    isMatched r' restrictions = isMatched r restrictions := by
  simp only [isMatched, groupedValue_alike h]

theorem inputEntity_alike (h : Alike r r') (selector : InputStreamConfig) (location : Point) :
    inputEntity selector r' location = inputEntity selector r location := by
  simp only [inputEntity, h.id, h.type]

-- one metadata at most has the name of the location, so no order of the loop matters
theorem find_location (h : MetadataNamed r) :
    r.metadataList.values.find? (fun m => m.name == "location" && m.type == "point") =
      (r.metadataList.get "location").filter (fun m => m.type == "point") := by
  have hheld : ∀ m ∈ r.metadataList.values, m.name = "location" →
      r.metadataList.get "location" = some m := by
    intro m hin hname
    obtain ⟨k, hk⟩ := GoMap.mem_values.mp hin
    rwa [← hname, h k m hk]
  cases hfind : r.metadataList.values.find?
      (fun m => m.name == "location" && m.type == "point") with
  | some m =>
    have htest := List.find?_some hfind
    rw [Bool.and_eq_true, beq_iff_eq] at htest
    rw [hheld m (List.mem_of_find?_eq_some hfind) htest.1, Option.filter_some, if_pos htest.2]
  | none =>
    rw [List.find?_eq_none] at hfind
    cases hget : r.metadataList.get "location" with
    | none => rfl
    | some m =>
      have hnot := hfind m (GoMap.mem_values.mpr ⟨_, hget⟩)
      rw [h _ _ hget, beq_self_eq_true, Bool.true_and] at hnot
      rw [Option.filter_some, if_neg hnot]

theorem getLocation_alike (h : Alike r r') (hr : MetadataNamed r) (hr' : MetadataNamed r') :
    r'.getLocation = r.getLocation := by
  rw [EntityRegistration.getLocation, EntityRegistration.getLocation, find_location hr,
    find_location hr', h.metadata]

end Registration

section Receipt

variable {subscriptions : GoMap InputSubscription} {subID : String} {sub sub' : InputSubscription}
  {new r r' : EntityRegistration} {g : GroupInfo} {x : InputEntity}

theorem receive_again (hnew : MetadataNamed new)
    (hr : (receive sub new).receivedEntityRegistrations.get (receivedKey sub new.id) = some r) :
    ∃ r', (receive (receive sub new) new).receivedEntityRegistrations.get
      (receivedKey sub new.id) = some r' ∧ Alike r r' := by
  rcases receive_cases (receive sub new) new with ⟨hnone, -⟩ | ⟨before, hbefore, hagain⟩
  · rw [receivedKey_receive, hr] at hnone
    cases hnone
  · rw [receivedKey_receive, hr] at hbefore
    obtain rfl := Option.some.inj hbefore
    rcases hagain with ⟨-, hsame⟩ | ⟨hsimple, hupdated⟩
    · exact ⟨r, by rw [hsame, hr], alike_refl r⟩
    · rw [receivedKey_receive] at hupdated
      refine ⟨r.update new, by rw [hupdated]; exact GoMap.get_set_self _ _ _, ?_⟩
      rcases receive_cases sub new with ⟨-, hfirst⟩ | ⟨old, -, ⟨hsimple', -⟩ | ⟨-, hfirst⟩⟩
      · rw [hfirst] at hr
        obtain rfl := Option.some.inj ((GoMap.get_set_self _ _ _).symm.trans hr)
        exact alike_update_self hnew
      · rw [receive_inputSelector, hsimple'] at hsimple
        cases hsimple
      · rw [hfirst] at hr
        obtain rfl := Option.some.inj ((GoMap.get_set_self _ _ _).symm.trans hr)
        exact alike_update_again old new

theorem heldNamed_receive (h : HeldNamed subscriptions) (hsub : subscriptions.get subID = some sub)
    (hnew : MetadataNamed new) : HeldNamed (subscriptions.set subID (receive sub new)) := by
  intro other r hheld
  rcases heldAs_receive hsub hheld with ⟨-, hr⟩ | ⟨before, hbefore, -⟩
  · rcases receive_cases sub new with ⟨-, hc⟩ | ⟨old, hold, ⟨-, hc⟩ | ⟨-, hc⟩⟩
    · rw [hc] at hr
      rwa [← Option.some.inj ((GoMap.get_set_self _ _ _).symm.trans hr)]
    · rw [hc] at hr
      exact h sub r ⟨subID, _, hsub, hr⟩
    · rw [hc] at hr
      rw [← Option.some.inj ((GoMap.get_set_self _ _ _).symm.trans hr)]
      exact metadataNamed_update (h sub old ⟨subID, _, hsub, hold⟩) hnew
  · exact h before r hbefore

theorem heldNamed_forget (h : HeldNamed subscriptions) (hsub : subscriptions.get subID = some sub)
    (entityID : String) : HeldNamed (subscriptions.set subID (forget sub entityID)) := by
  intro other r hheld
  obtain ⟨before, hbefore, -⟩ := heldAs_forget hsub hheld
  exact h before r hbefore

-- what is held after the second receipt is like what is held after the first
theorem heldAs_again (hnew : MetadataNamed new)
    (hsub : subscriptions.get subID = some (receive sub new))
    (h : HeldAs (subscriptions.set subID (receive (receive sub new) new)) sub' r') :
    ∃ other r, HeldAs subscriptions other r ∧ other.inputSelector = sub'.inputSelector ∧
      Alike r r' := by
  rcases heldAs_receive hsub h with ⟨rfl, hr'⟩ | ⟨before, hbefore, hselector⟩
  · obtain ⟨r, hr, -⟩ := get_receive_self sub new
    obtain ⟨again, hagain, halike⟩ := receive_again hnew hr
    rw [receivedKey_receive, hagain] at hr'
    obtain rfl := Option.some.inj hr'
    exact ⟨receive sub new, r, ⟨subID, _, hsub, hr⟩, (receive_inputSelector _ _).symm, halike⟩
  · exact ⟨before, r', hbefore, hselector, alike_refl r'⟩

theorem selected_again (hnew : MetadataNamed new) (hnamed : HeldNamed subscriptions)
    (hsub : subscriptions.get subID = some (receive sub new))
    (h : Selected (subscriptions.set subID (receive (receive sub new) new)) g x) :
    Selected subscriptions g x := by
  obtain ⟨sub', r', location, hheld, hmatched, hlocation, rfl⟩ := h
  obtain ⟨other, r, hother, hselector, halike⟩ := heldAs_again hnew hsub hheld
  have hr' : MetadataNamed r' := heldNamed_receive hnamed hsub hnew _ _ hheld
  refine ⟨other, r, location, hother, ?_, ?_, ?_⟩
  · rwa [Matched, hselector, ← isMatched_alike halike]
  · rwa [← getLocation_alike halike (hnamed _ _ hother) hr']
  · rw [hselector, inputEntity_alike halike]

theorem found_again (hnew : MetadataNamed new) (hnamed : HeldNamed subscriptions)
    (hsub : subscriptions.get subID = some (receive sub new))
    (h : ∀ sub r, HeldAs subscriptions sub r → GroupPanics.Found sub.inputSelector g r)
    (hheld : HeldAs (subscriptions.set subID (receive (receive sub new) new)) sub' r') :
    GroupPanics.Found sub'.inputSelector g r' := by
  obtain ⟨other, r, hother, hselector, halike⟩ := heldAs_again hnew hsub hheld
  have hr' : MetadataNamed r' := heldNamed_receive hnamed hsub hnew _ _ hheld
  have hfound := h other r hother
  rw [GroupPanics.Found, hselector] at hfound
  rwa [GroupPanics.Found, isMatched_alike halike,
    getLocation_alike halike (hnamed _ _ hother) hr']

end Receipt

section Groups

variable {uniqueKeys next : GoMap (List GroupValue)} {key : String} {v : GroupValue}
  {g : GroupInfo} {sub : InputSubscription} {r : EntityRegistration} {k : String}

theorem eventGroup_of_mem {keyRank : String → Nat}
    (hg : g ∈ product key v (uniqueKeys.range keyRank)) : EventGroup uniqueKeys key v g := by
  obtain ⟨hpicks, hnone⟩ := picks_product (GoMap.range_keys_nodup keyRank uniqueKeys) hg
  refine ⟨hpicks.own, fun k items hk hget => ?_, fun k hk hget => hnone k hk (fun hin => ?_)⟩
  · exact hpicks.listed k items hk (GoMap.mem_range.mpr hget)
  · obtain ⟨⟨k', items⟩, hmem, rfl⟩ := List.mem_map.mp hin
    rw [GoMap.mem_range, hget] at hmem
    cases hmem

theorem exists_sameGroup (h : EventGroup uniqueKeys key v g) (keyRank : String → Nat) :
    ∃ g' ∈ product key v (uniqueKeys.range keyRank), SameGroup g' g := by
  have hnodup := GoMap.range_keys_nodup keyRank uniqueKeys
  have hpicks : Picks key v (uniqueKeys.range keyRank) g.get :=
    ⟨h.own, fun k items hk hmem => h.listed k items hk (GoMap.mem_range.mp hmem)⟩
  obtain ⟨g', hg', hagree⟩ := exists_mem_product hnodup hpicks
  refine ⟨g', hg', fun k => ?_⟩
  by_cases hk : k = key
  · exact hagree k (.inl hk)
  · cases hget : uniqueKeys.get k with
    | some items =>
      exact hagree k (.inr (List.mem_map.mpr ⟨⟨k, items⟩, GoMap.mem_range.mpr hget, rfl⟩))
    | none => rw [(eventGroup_of_mem hg').absent k hk hget, h.absent k hk hget]

theorem eventGroup_congr (hother : ∀ k, k ≠ key → next.get k = uniqueKeys.get k) :
    EventGroup next key v g → EventGroup uniqueKeys key v g := by
  intro h
  refine ⟨h.own, fun k items hk hget => ?_, fun k hk hget => ?_⟩
  · exact h.listed k items hk ((hother k hk).trans hget)
  · exact h.absent k hk ((hother k hk).trans hget)

theorem get_updateTable_ne
    (h : updateGroupedKeyValueTable uniqueKeys sub k = .ok next) {k' : String}
    (hk : k' ≠ groupedKey sub.inputSelector) : next.get k' = uniqueKeys.get k' := by
  obtain ⟨value, -, h⟩ := bind_eq_ok.mp h
  cases hget : uniqueKeys.get (groupedKey sub.inputSelector) with
  | none =>
    simp only [hget, Except.ok.injEq] at h
    rw [← h, GoMap.get_set_ne _ _ hk]
  | some items =>
    simp only [hget] at h
    split_ifs at h
    · rw [← Except.ok.inj h]
    · obtain ⟨found, -, h⟩ := bind_eq_ok.mp h
      rw [← Except.ok.inj h]
      split_ifs
      · rfl
      · exact GoMap.get_set_ne _ _ hk

-- a value that is listed and can be compared leaves the table as it is
theorem updateTable_again (items : List GroupValue)
    (hr : sub.receivedEntityRegistrations.get k = some r)
    (hget : uniqueKeys.get (groupedKey sub.inputSelector) = some items)
    (hlisted : sub.inputSelector.groupBy ≠ "ALL" → groupValue sub.inputSelector r ∈ items)
    (hcomparable : Comparable (groupValue sub.inputSelector r)) :
    updateGroupedKeyValueTable uniqueKeys sub k = .ok uniqueKeys := by
  rw [updateGroupedKeyValueTable, valueOf_groupValue hr, ok_bind]
  simp only [hget]
  split_ifs with hall
  · rfl
  · rw [inList_eq hcomparable, ok_bind, decide_eq_true (hlisted hall)]
    rfl

end Groups

section Expansion

variable {marshal : GroupValue → String} {choices : Choices}
  {subscriptions : GoMap InputSubscription} {selector : InputStreamConfig}
  {groups : GroupInfo → Prop} {flow : FogFlow} {state next : FogFlow × Actions} {g : GroupInfo}
  {task : TaskConfig} {done : List GroupInfo}

-- what the loop over the groups has reached
structure Followed (marshal : GroupValue → String) (subscriptions : GoMap InputSubscription)
    (selector : InputStreamConfig) (groups : GroupInfo → Prop) (done : List GroupInfo)
    (flow : FogFlow) : Prop where
  frame : flow.subscriptions = subscriptions
  traceable : Traceable marshal subscriptions selector groups flow.executionPlan
  found : ∀ g ∈ done, ∀ sub r, HeldAs subscriptions sub r →
    GroupPanics.Found sub.inputSelector g r
  inPlace : ∀ g ∈ done, ∃ task, flow.executionPlan.get (groupHash marshal g) = some task ∧
    ∀ x, Selected subscriptions g x → InPlace selector task x

theorem followed_put (h : Followed marshal subscriptions selector groups done flow)
    (hfound : ∀ sub r, HeldAs subscriptions sub r → GroupPanics.Found sub.inputSelector g r)
    (hplaced : ∀ x, Selected subscriptions g x → InPlace selector task x)
    (hfollows : ∀ g' x, groups g' → groupHash marshal g' = groupHash marshal g →
      Selected subscriptions g' x → Follows selector task x)
    (hdone : ∀ g' ∈ done, groupHash marshal g' = groupHash marshal g →
      ∀ x, Selected subscriptions g' x → InPlace selector task x) :
    Followed marshal subscriptions selector groups (done ++ [g])
      (flow.putTask (groupHash marshal g) task) := by
  have hput : ∀ k, (flow.putTask (groupHash marshal g) task).executionPlan.get k =
      if k = groupHash marshal g then some task else flow.executionPlan.get k :=
    fun k => GoMap.get_set _ _ _ _
  refine ⟨h.frame, ⟨h.traceable.unskipped, h.traceable.placed, ?_⟩, ?_, ?_⟩
  · intro g' task' x hg' hget hselected
    rw [hput] at hget
    split_ifs at hget with heq
    · rw [← Option.some.inj hget]
      exact hfollows g' x hg' heq hselected
    · exact h.traceable.follows g' task' x hg' hget hselected
  · intro g' hg' sub r hheld
    rcases List.mem_append.mp hg' with hg' | hg'
    · exact h.found g' hg' sub r hheld
    · rw [List.mem_singleton.mp hg']
      exact hfound sub r hheld
  · intro g' hg'
    rw [hput]
    rcases List.mem_append.mp hg' with hg' | hg'
    · split_ifs with heq
      · exact ⟨task, rfl, hdone g' hg' heq⟩
      · exact h.inPlace g' hg'
    · rw [List.mem_singleton.mp hg', if_pos rfl]
      exact ⟨task, rfl, hplaced⟩

theorem followed_merged {i : Nat} {actions : Actions} {entities : List InputEntity}
    {result : TaskConfig × Actions} (h : Followed marshal subscriptions selector groups done flow)
    (hdone : ∀ g ∈ done, groups g) (hg : groups g)
    (hsearch : searchRelevantEntities subscriptions g (choices.subRank i) (choices.regRank i) =
      .ok entities)
    (hget : flow.executionPlan.get (groupHash marshal g) = some task)
    (hmerge : entities.zipIdx.foldlM (mergeInput flow selector (choices.workerSelection i))
      (task, actions) = .ok result) :
    Followed marshal subscriptions selector groups (done ++ [g])
      (flow.putTask (groupHash marshal g) result.1) := by
  have hunskipped := h.traceable.unskipped g hg
  let S : InputEntity → Prop := fun x =>
    ∃ g', groups g' ∧ groupHash marshal g' = groupHash marshal g ∧ Selected subscriptions g' x
  have hplaces : ∀ x y, S x → S y → x.id = y.id → x.location = y.location := by
    rintro x y ⟨g₁, hg₁, hhash₁, hx⟩ ⟨g₂, hg₂, hhash₂, hy⟩
    exact h.traceable.placed g₁ g₂ x y hg₁ hg₂ (hhash₁.trans hhash₂.symm) hx hy
  have hfollows : ∀ x, S x → Follows selector task x := by
    rintro x ⟨g', hg', hhash, hx⟩
    exact h.traceable.follows g' task x hg' (by rw [hhash, hget]) hx
  have hS : ∀ x ∈ entities, S x := fun x hx => ⟨g, hg, rfl, selected_of_search hsearch x hx⟩
  obtain ⟨hmerged, hnears⟩ := inPlace_mergeInputs hplaces hfollows hS hmerge
  refine followed_put h (fun sub r hheld => (listed_of_search hunskipped hsearch hheld).1)
    (fun x hx => hmerged x (mem_of_selected hunskipped hsearch hx)) ?_ ?_
  · intro g' x hg' hhash hx
    exact follows_of_nears (hnears x ⟨g', hg', hhash, hx⟩) (hfollows x ⟨g', hg', hhash, hx⟩)
  · intro g' hg' hhash x hx
    obtain ⟨task', hget', hplaced⟩ := h.inPlace g' hg'
    rw [hhash, hget] at hget'
    obtain rfl := Option.some.inj hget'
    exact inPlace_of_nears (hnears x ⟨g', hdone g' hg', hhash, hx⟩) (hplaced x hx)

theorem followed_created {i : Nat} (h : Followed marshal subscriptions selector groups done flow)
    (hg : groups g)
    (hsearch : searchRelevantEntities subscriptions g (choices.subRank i) (choices.regRank i) =
      .ok task.inputs)
    (hnone : flow.executionPlan.get (groupHash marshal g) = none) :
    Followed marshal subscriptions selector groups (done ++ [g])
      (flow.putTask (groupHash marshal g) task) := by
  have hunskipped := h.traceable.unskipped g hg
  have hplaced : ∀ g' x, groups g' → groupHash marshal g' = groupHash marshal g →
      Selected subscriptions g' x → stale x task.inputs = 0 := by
    intro g' x hg' hhash hx
    refine stale_eq_zero_iff.mpr (fun input hin hid => ?_)
    exact h.traceable.placed g g' input x hg hg' hhash.symm
      (selected_of_search hsearch input hin) hx hid
  refine followed_put h (fun sub r hheld => (listed_of_search hunskipped hsearch hheld).1)
    (fun x hx => ?_) (fun g' x hg' hhash hx => ?_) (fun g' hg' hhash => ?_)
  · exact ⟨known_of_mem x (mem_of_selected hunskipped hsearch hx) rfl rfl, hplaced g x hg rfl hx⟩
  · exact (hplaced g' x hg' hhash hx).le.trans (Nat.zero_le _)
  · obtain ⟨task', hget', -⟩ := h.inPlace g' hg'
    rw [hhash, hnone] at hget'
    cases hget'

theorem followed_step {i : Nat} (h : Followed marshal subscriptions selector groups done state.1)
    (hdone : ∀ g ∈ done, groups g) (hg : groups g)
    (hnext : expandGroup marshal choices selector state (g, i) = .ok next) :
    Followed marshal subscriptions selector groups (done ++ [g]) next.1 := by
  cases expandGroup_cases hnext with
  | merged task entities result hsearch hget hmerge =>
    rw [h.frame] at hsearch
    rw [getHash_eq] at hget ⊢
    exact followed_merged h hdone hg hsearch hget hmerge
  | created task hsearch _ hnone =>
    rw [h.frame] at hsearch
    rw [getHash_eq] at hnone ⊢
    exact followed_created h hg hsearch hnone

theorem followed_groups {gs : List GroupInfo} (hgs : ∀ g ∈ gs, groups g)
    (hsubscriptions : flow.subscriptions = subscriptions)
    (h : Traceable marshal subscriptions selector groups flow.executionPlan)
    (hexp : gs.zipIdx.foldlM (expandGroup marshal choices selector) (flow, []) = .ok next) :
    Followed marshal subscriptions selector groups gs next.1 := by
  refine foldlM_zipIdx_invariant (I := fun done state =>
    Followed marshal subscriptions selector groups done state.1) hexp
    ⟨hsubscriptions, h, by simp, by simp⟩ ?_
  intro done g rest i state next hsplit hdone hnext
  refine followed_step hdone (fun g' hg' => hgs g' ?_) (hgs g ?_) hnext
  · rw [hsplit]
    exact List.mem_append_left _ hg'
  · rw [hsplit]
    simp

-- a group whose entities are all in place leaves its task and the actions as they are
theorem expandGroup_inPlace {i : Nat}
    (hfound : ∀ sub r, HeldAs state.1.subscriptions sub r → GroupPanics.Found sub.inputSelector g r)
    (hget : state.1.executionPlan.get (groupHash marshal g) = some task)
    (hplaced : ∀ x, Selected state.1.subscriptions g x → InPlace selector task x) :
    expandGroup marshal choices selector state (g, i) =
      .ok (state.1.putTask (groupHash marshal g) task, state.2) := by
  obtain ⟨entities, hsearch⟩ := ends_search_iff.mpr hfound (choices.subRank i) (choices.regRank i)
  have hmerge : entities.zipIdx.foldlM (mergeInput state.1 selector (choices.workerSelection i))
      (task, state.2) = .ok (task, state.2) := by
    refine foldlM_unchanged (fun entity hin => mergeInput_inPlace ?_)
    exact hplaced _ (selected_of_search hsearch _ (List.fst_mem_of_mem_zipIdx hin))
  unfold expandGroup
  simp only [hsearch, ok_bind, getHash_eq, hget, hmerge]

theorem expand_unchanged {gs : List GroupInfo}
    (hfound : ∀ g ∈ gs, ∀ sub r, HeldAs flow.subscriptions sub r →
      GroupPanics.Found sub.inputSelector g r)
    (hplaced : ∀ g ∈ gs, ∃ task, flow.executionPlan.get (groupHash marshal g) = some task ∧
      ∀ x, Selected flow.subscriptions g x → InPlace selector task x) :
    ∃ last, gs.zipIdx.foldlM (expandGroup marshal choices selector) (flow, []) = .ok (last, []) ∧
      ∀ k, last.executionPlan.get k = flow.executionPlan.get k := by
  have hloop : ∃ last, gs.zipIdx.foldlM (expandGroup marshal choices selector) (flow, []) =
      .ok last ∧ last.2 = [] ∧ last.1.subscriptions = flow.subscriptions ∧
        ∀ k, last.1.executionPlan.get k = flow.executionPlan.get k := by
    refine foldlM_zipIdx_total (I := fun _ (state : FogFlow × Actions) => state.2 = [] ∧
      state.1.subscriptions = flow.subscriptions ∧
        ∀ k, state.1.executionPlan.get k = flow.executionPlan.get k)
      ⟨rfl, rfl, fun _ => rfl⟩ ?_
    intro done g rest i state hsplit ⟨hnil, hsubs, hplan⟩
    have hg : g ∈ gs := by
      rw [hsplit]
      simp
    obtain ⟨task, hget, htask⟩ := hplaced g hg
    rw [← hplan] at hget
    refine ⟨_, expandGroup_inPlace (hsubs ▸ hfound g hg) hget (hsubs ▸ htask), hnil, hsubs,
      fun k => ?_⟩
    rw [FogFlow.putTask, GoMap.get_set, ← hplan]
    split_ifs with heq
    · rw [heq, hget]
    · rfl
  obtain ⟨⟨last, actions⟩, hrun, rfl, -, hplan⟩ := hloop
  exact ⟨last, hrun, hplan⟩

end Expansion

section Again

variable {marshal : GroupValue → String} {choices : Choices} {flow before next : FogFlow}
  {e : Event} {sub : InputSubscription} {r : EntityRegistration} {selector : InputStreamConfig}
  {g g' : GroupInfo} {x : InputEntity}

theorem restrictionsOf_congr (h : SameGroup g g') (selector : InputStreamConfig) :
    restrictionsOf selector g = restrictionsOf selector g' := by
  rw [restrictionsOf, restrictionsOf, h]

theorem selected_congr (h : SameGroup g g') {subscriptions : GoMap InputSubscription}
    (hx : Selected subscriptions g' x) : Selected subscriptions g x := by
  obtain ⟨sub, r, location, hheld, hmatched, hlocation, rfl⟩ := hx
  refine ⟨sub, r, location, hheld, ?_, hlocation, rfl⟩
  rwa [Matched, restrictionsOf_congr h]

theorem inPlace_congr {task task' : TaskConfig} (hinputs : task'.inputs = task.inputs)
    (h : InPlace selector task x) : InPlace selector task' x := by
  obtain ⟨hknown, hplaced⟩ := h
  unfold isNewInput at hknown
  refine ⟨?_, by rw [hinputs, hplaced]⟩
  rwa [isNewInput, hinputs]

-- the flow once it has received the registration of the event
structure Received (flow : FogFlow) (e : Event) (sub : InputSubscription) (next : FogFlow) : Prop
    where
  known : flow.subscriptions.get e.subID = some sub
  subscriptions : next.subscriptions = afterReceipt flow e sub
  table : updateGroupedKeyValueTable flow.uniqueKeys (receive sub e.registeredEntity)
    (receivedKey sub e.registeredEntity.id) = .ok next.uniqueKeys

theorem Received.get (h : Received flow e sub next) :
    next.subscriptions.get e.subID = some (receive sub e.registeredEntity) := by
  rw [h.subscriptions]
  exact GoMap.get_set_self _ _ _

def receivedAgain (next : FogFlow) (e : Event) (sub : InputSubscription) : FogFlow :=
  next.putSubscription e.subID (receive (receive sub e.registeredEntity) e.registeredEntity)

theorem Received.orchestration (h : Received flow e sub next)
    (hnamed : MetadataNamed e.registeredEntity)
    (hr : (receive sub e.registeredEntity).receivedEntityRegistrations.get
      (receivedKey sub e.registeredEntity.id) = some r)
    (hcomparable : Comparable (groupValue sub.inputSelector r)) :
    metadataDrivenTaskOrchestration marshal choices next e.subID .update e.registeredEntity =
      if checkInputAvailability (receivedAgain next e sub).subscriptions then
        expandExecutionPlan marshal choices (receivedAgain next e sub)
          (receivedKey sub e.registeredEntity.id)
          (receive (receive sub e.registeredEntity) e.registeredEntity)
      else .ok (receivedAgain next e sub, []) := by
  obtain ⟨r', hr', halike⟩ := receive_again hnamed hr
  obtain ⟨items, hitems, hlisted⟩ := (grown_updateTable hr h.table).own
  rw [receive_inputSelector] at hitems hlisted
  have htable : updateGroupedKeyValueTable next.uniqueKeys
      (receive (receive sub e.registeredEntity) e.registeredEntity)
      (receivedKey sub e.registeredEntity.id) = .ok next.uniqueKeys := by
    refine updateTable_again items hr' ?_ ?_ ?_
    · rw [receive_inputSelector, receive_inputSelector, hitems]
    · rw [receive_inputSelector, receive_inputSelector, groupValue_alike halike]
      exact hlisted
    · rw [receive_inputSelector, receive_inputSelector, groupValue_alike halike]
      exact hcomparable
  rw [metadataDrivenTaskOrchestration, h.get]
  simp only [receivedKey_receive, htable, ok_bind]
  rfl

theorem Received.unavailable (h : Received flow e sub next)
    (hunavail : checkInputAvailability (afterReceipt flow e sub) = false) :
    checkInputAvailability (receivedAgain next e sub).subscriptions = false := by
  rw [← Bool.not_eq_true] at hunavail ⊢
  refine mt (fun havail => ?_) hunavail
  rw [checkInputAvailability_iff] at havail ⊢
  intro subID other hother
  by_cases hsubID : subID = e.subID
  · obtain ⟨r, hr, -⟩ := get_receive_self sub e.registeredEntity
    rw [afterReceipt, hsubID, GoMap.get_set_self] at hother
    rw [← Option.some.inj hother]
    exact ⟨_, r, hr⟩
  · refine havail subID other ?_
    rw [receivedAgain, FogFlow.putSubscription, GoMap.get_set_ne _ _ hsubID, h.subscriptions,
      hother]

-- the groups of the second expansion are those of the first, which have left everything in place
theorem Received.expand_again (choices : Choices) {gs : List GroupInfo}
    (h : Received flow e sub next) (hheld : HeldNamed next.subscriptions)
    (hnamed : MetadataNamed e.registeredEntity)
    (hr : (receive sub e.registeredEntity).receivedEntityRegistrations.get
      (receivedKey sub e.registeredEntity.id) = some r)
    (hgs : ∀ g, EventGroup next.uniqueKeys (groupedKey sub.inputSelector)
      (groupValue sub.inputSelector r) g → ∃ g' ∈ gs, SameGroup g' g)
    (hfollowed : Followed marshal next.subscriptions sub.inputSelector
      (EventGroup flow.uniqueKeys (groupedKey sub.inputSelector) (groupValue sub.inputSelector r))
      gs before)
    (hplan : SameTasks before.executionPlan next.executionPlan) :
    ∃ last, expandExecutionPlan marshal choices (receivedAgain next e sub)
        (receivedKey sub e.registeredEntity.id)
        (receive (receive sub e.registeredEntity) e.registeredEntity) = .ok (last, []) ∧
      ∀ k, last.executionPlan.get k = next.executionPlan.get k := by
  obtain ⟨r', hr', halike⟩ := receive_again hnamed hr
  rw [expandExecutionPlan, getRelevantGroups_eq (valueOf_groupValue hr'), ok_bind,
    receive_inputSelector, receive_inputSelector, groupValue_alike halike]
  refine expand_unchanged ?_ ?_
  · intro g hg sub' r' hheld'
    obtain ⟨g', hg', hsame⟩ := hgs g (eventGroup_of_mem hg)
    refine found_again hnamed hheld h.get (fun sub r hsr => ?_) hheld'
    have hfound := hfollowed.found g' hg' sub r hsr
    rwa [GroupPanics.Found, restrictionsOf_congr hsame] at hfound
  · intro g hg
    obtain ⟨g', hg', hsame⟩ := hgs g (eventGroup_of_mem hg)
    obtain ⟨task, hget, hplaced⟩ := hfollowed.inPlace g' hg'
    have hplan' : SameTasks next.executionPlan before.executionPlan := fun k => (hplan k).symm
    obtain ⟨task', hget', -, hinputs⟩ := hplan'.exists_task hget
    have hhash : groupHash marshal g' = groupHash marshal g := getHash_congr hsame _ _
    refine ⟨task', ?_, fun x hx => ?_⟩
    · rw [← hhash]
      exact hget'
    · exact inPlace_congr hinputs.symm
        (hplaced x (selected_congr hsame (selected_again hnamed hheld h.get hx)))

theorem quiet_of_received (h : Received flow e sub next)
    (hnamed : MetadataNamed e.registeredEntity)
    (hr : (receive sub e.registeredEntity).receivedEntityRegistrations.get
      (receivedKey sub e.registeredEntity.id) = some r)
    (hcomparable : Comparable (groupValue sub.inputSelector r))
    (hunavail : checkInputAvailability (afterReceipt flow e sub) = false) :
    Quiet marshal choices next e := by
  refine ⟨receivedAgain next e sub, ?_, fun _ => rfl⟩
  rw [h.orchestration hnamed hr hcomparable, h.unavailable hunavail]
  rfl

theorem quiet_of_expanded {result : FogFlow × Actions} (h : Received flow e sub next)
    (hheld : HeldNamed next.subscriptions) (hnamed : MetadataNamed e.registeredEntity)
    (hr : (receive sub e.registeredEntity).receivedEntityRegistrations.get
      (receivedKey sub e.registeredEntity.id) = some r)
    (hsettling : Settling marshal flow e)
    (havail : checkInputAvailability (afterReceipt flow e sub) = true)
    (hexp : expandExecutionPlan marshal e.choices
      { flow.putSubscription e.subID (receive sub e.registeredEntity) with
        uniqueKeys := next.uniqueKeys }
      (receivedKey sub e.registeredEntity.id) (receive sub e.registeredEntity) = .ok result)
    (hplan : SameTasks result.1.executionPlan next.executionPlan) :
    Quiet marshal choices next e := by
  obtain ⟨hcomparable, htraceable⟩ := hsettling sub r h.known hr
  have hagain : checkInputAvailability (receivedAgain next e sub).subscriptions = true := by
    refine available_receive ?_
    rwa [h.subscriptions]
  have heventGroup : ∀ g, EventGroup next.uniqueKeys (groupedKey sub.inputSelector)
      (groupValue sub.inputSelector r) g → EventGroup flow.uniqueKeys
        (groupedKey sub.inputSelector) (groupValue sub.inputSelector r) g := by
    intro g hg
    refine eventGroup_congr (fun k hk => get_updateTable_ne h.table ?_) hg
    rwa [receive_inputSelector]
  rw [expandExecutionPlan, getRelevantGroups_eq (valueOf_groupValue hr), ok_bind,
    receive_inputSelector] at hexp
  have hfollowed : Followed marshal next.subscriptions sub.inputSelector
      (EventGroup flow.uniqueKeys (groupedKey sub.inputSelector) (groupValue sub.inputSelector r))
      (product (groupedKey sub.inputSelector) (groupValue sub.inputSelector r)
        (next.uniqueKeys.range e.choices.keyRank)) result.1 := by
    refine followed_groups (fun g hg => heventGroup g (eventGroup_of_mem hg)) h.subscriptions.symm
      ?_ hexp
    rw [h.subscriptions]
    exact htraceable havail
  obtain ⟨last, hlast, hsame⟩ := h.expand_again choices hheld hnamed hr
    (fun g hg => exists_sameGroup hg e.choices.keyRank) hfollowed hplan
  refine ⟨last, ?_, hsame⟩
  rw [h.orchestration hnamed hr hcomparable, hagain, if_pos rfl, hlast]

theorem received_of_step (haction : e.entityAction ≠ .delete)
    (hsub : flow.subscriptions.get e.subID = some sub) (hstep : step marshal flow e = some next) :
    Received flow e sub next := by
  obtain ⟨orchestrated, commands, horch, hactions⟩ := step_eq_some.mp hstep
  have hscheduled := scheduled_runActions hactions
  cases orchestration_cases horch with
  | unknown hnone => cases hnone.symm.trans hsub
  | received sub' uniqueKeys hsub' _ hkeys _ =>
    obtain rfl := Option.some.inj (hsub.symm.trans hsub')
    exact ⟨hsub, hscheduled.subscriptions, by rw [hkeys, hscheduled.uniqueKeys]⟩
  | expanded sub' uniqueKeys result hsub' _ hkeys _ hexp =>
    obtain rfl := Option.some.inj (hsub.symm.trans hsub')
    have hframe := planOnly_expandExecutionPlan hexp
    exact ⟨hsub, hscheduled.subscriptions.trans hframe.subscriptions,
      by rw [hkeys, hscheduled.uniqueKeys, hframe.uniqueKeys]⟩
  | absent _ _ hdelete _ => exact absurd hdelete haction
  | removed _ _ _ hdelete _ _ _ => exact absurd hdelete haction
  | forgotten _ _ hdelete _ _ => exact absurd hdelete haction

theorem quiet_of_step (hheld : HeldNamed flow.subscriptions)
    (hnamed : MetadataNamed e.registeredEntity) (haction : e.entityAction ≠ .delete)
    (hsettling : Settling marshal flow e) (hstep : step marshal flow e = some next) :
    Quiet marshal choices next e := by
  have hreceived : ∀ {sub}, flow.subscriptions.get e.subID = some sub →
      Received flow e sub next := fun hsub => received_of_step haction hsub hstep
  obtain ⟨orchestrated, commands, horch, hactions⟩ := step_eq_some.mp hstep
  have hscheduled := scheduled_runActions hactions
  cases orchestration_cases horch with
  | unknown hnone =>
    refine ⟨next, ?_, fun _ => rfl⟩
    rw [metadataDrivenTaskOrchestration, hscheduled.subscriptions, hnone]
  | received sub uniqueKeys hsub _ _ hunavail =>
    obtain ⟨r, hr, -⟩ := get_receive_self sub e.registeredEntity
    exact quiet_of_received (hreceived hsub) hnamed hr (hsettling sub r hsub hr).1 hunavail
  | expanded sub uniqueKeys result hsub _ _ havail hexp =>
    obtain ⟨r, hr, -⟩ := get_receive_self sub e.registeredEntity
    have huniqueKeys : next.uniqueKeys = uniqueKeys :=
      hscheduled.uniqueKeys.trans (planOnly_expandExecutionPlan hexp).uniqueKeys
    refine quiet_of_expanded (hreceived hsub) ?_ hnamed hr hsettling havail (huniqueKeys ▸ hexp)
      hscheduled.executionPlan
    rw [(hreceived hsub).subscriptions]
    exact heldNamed_receive hheld hsub hnamed
  | absent _ _ hdelete _ => exact absurd hdelete haction
  | removed _ _ _ hdelete _ _ _ => exact absurd hdelete haction
  | forgotten _ _ hdelete _ _ => exact absurd hdelete haction

theorem heldNamed_step (hheld : HeldNamed flow.subscriptions)
    (hnamed : MetadataNamed e.registeredEntity) (hstep : step marshal flow e = some next) :
    HeldNamed next.subscriptions := by
  obtain ⟨orchestrated, commands, horch, hactions⟩ := step_eq_some.mp hstep
  rw [(scheduled_runActions hactions).subscriptions]
  cases orchestration_cases horch with
  | unknown _ => exact hheld
  | received sub _ hsub _ _ _ => exact heldNamed_receive hheld hsub hnamed
  | expanded sub _ _ hsub _ _ _ hexp =>
    rw [(planOnly_expandExecutionPlan hexp).subscriptions]
    exact heldNamed_receive hheld hsub hnamed
  | absent _ _ _ _ => exact hheld
  | removed _ _ _ _ _ _ hrem =>
    rw [(planOnly_removeExecutionPlan hrem).subscriptions]
    exact hheld
  | forgotten sub hsub _ _ _ => exact heldNamed_forget hheld hsub _

theorem heldNamed_exec {flow₀ : FogFlow} {events : List Event} (h₀ : Established flow₀)
    (hnamed : ∀ e ∈ events, MetadataNamed e.registeredEntity)
    (hrun : exec (step marshal) flow₀ events = some flow) : HeldNamed flow.subscriptions := by
  refine exec_induction (motive := fun _ flow => HeldNamed flow.subscriptions) hrun ?_ ?_
  · rintro sub r ⟨subID, k, hsub, hr⟩
    rw [h₀.nothingReceived subID sub hsub] at hr
    cases hr
  · intro before e flow next hp _ hheld hstep
    exact heldNamed_step hheld (hnamed e (hp.subset (by simp))) hstep

end Again

theorem repeated_update_quiet {marshal : GroupValue → String} {flow₀ flow next : FogFlow}
    {events : List Event} {e : Event} (h₀ : Established flow₀)
    (hnamed : ∀ e' ∈ events ++ [e], MetadataNamed e'.registeredEntity)
    (hrun : exec (step marshal) flow₀ events = some flow) (haction : e.entityAction ≠ .delete)
    (hstep : step marshal flow e = some next) (hsettling : Settling marshal flow e) :
    ∀ choices, Quiet marshal choices next e := by
  intro choices
  have hheld : HeldNamed flow.subscriptions :=
    heldNamed_exec h₀ (fun e' he' => hnamed e' (List.mem_append_left _ he')) hrun
  exact quiet_of_step hheld (hnamed e (by simp)) haction hsettling hstep

def placedAt (id type : String) (place : Point) : EntityRegistration :=
  { exampleEntity id type with
    metadataList := (∅ : GoMap ContextMetadata).set "location"
      ⟨"location", "point", .point place, .null⟩ }

-- the worker that is near the first of the inputs
def nearFirst : List Point → String
  | place :: _ => if place = ⟨49, 8⟩ then "west" else "east"
  | [] => "west"

def nearFirstChoices : Choices := { exampleChoices with workerSelection := fun _ _ => nearFirst }

def arrives (id type : String) (place : Point) : Event :=
  ⟨"sub" ++ type, .create, placedAt id type place, nearFirstChoices, fun _ => nearFirst⟩

theorem metadataNamed_placedAt (id type : String) (place : Point) :
    MetadataNamed (placedAt id type place) := by
  intro name m hget
  rw [placedAt, GoMap.get_set] at hget
  split_ifs at hget with hname
  · rw [← Option.some.inj hget, hname]
  · cases hget

def cameras : FogFlow := exampleFlow [exampleStream "Camera" "EntityID"]

def cameraStream (r : EntityRegistration) : InputSubscription :=
  ⟨exampleStream "Camera" "EntityID", "subCamera", (∅ : GoMap EntityRegistration).set "cam" r⟩

def cameraAppears : Event := arrives "cam" "Camera" ⟨49, 8⟩

def cameraMoves : Event := arrives "cam" "Camera" ⟨49, 9⟩

def movedCamera : EntityRegistration :=
  cameraAppears.registeredEntity.update cameraMoves.registeredEntity

-- the camera is all that the flow holds
theorem heldAs_cameras {subscriptions : GoMap InputSubscription} {camera r : EntityRegistration}
    {sub : InputSubscription}
    (hsubs : ∀ subID, subscriptions.get subID =
      if subID = "subCamera" then some (cameraStream camera) else none)
    (h : HeldAs subscriptions sub r) : sub = cameraStream camera ∧ r = camera := by
  obtain ⟨subID, k, hsub, hr⟩ := h
  rw [hsubs] at hsub
  split_ifs at hsub
  obtain rfl := Option.some.inj hsub
  rw [cameraStream, GoMap.get_set] at hr
  split_ifs at hr
  · exact ⟨rfl, (Option.some.inj hr).symm⟩
  · cases hr

theorem settling_cameraMoves {flow : FogFlow}
    (hrun : exec (step exampleMarshal) cameras [cameraAppears] = some flow) :
    Settling exampleMarshal flow cameraMoves := by
  have hstep : step exampleMarshal cameras cameraAppears = some flow := by
    simpa [exec] using hrun
  have hreceived : Received cameras cameraAppears
      ⟨exampleStream "Camera" "EntityID", "subCamera", ∅⟩ flow :=
    received_of_step (by simp [cameraAppears, arrives]) rfl hstep
  have htasks : (exec (step exampleMarshal) cameras [cameraAppears]).all (fun flow =>
      flow.executionPlan.values.all (fun task =>
        decide (task.inputs.map InputEntity.id = ["cam"]))) = true := by decide +kernel
  rw [hrun, Option.all_some, List.all_eq_true] at htasks
  intro sub r hsub hr
  obtain rfl : cameraStream cameraAppears.registeredEntity = sub :=
    Option.some.inj (hreceived.get.symm.trans hsub)
  obtain rfl : movedCamera = r := Option.some.inj hr
  have hsubs : ∀ subID, (afterReceipt flow cameraMoves
      (cameraStream cameraAppears.registeredEntity)).get subID =
        if subID = "subCamera" then some (cameraStream movedCamera) else none := by
    intro subID
    by_cases heq : subID = "subCamera"
    · rw [heq, if_pos rfl]
      exact GoMap.get_set_self _ _ _
    · rw [if_neg heq, afterReceipt, hreceived.subscriptions, afterReceipt]
      exact (GoMap.get_set_ne _ _ heq).trans
        ((GoMap.get_set_ne _ _ heq).trans (GoMap.get_set_ne _ _ heq))
  have hselected : ∀ {g x}, Selected (afterReceipt flow cameraMoves
      (cameraStream cameraAppears.registeredEntity)) g x → x.id = "cam" ∧
        movedCamera.getLocation = .ok x.location := by
    rintro g x ⟨sub, r, location, hheld, -, hlocation, rfl⟩
    obtain ⟨rfl, rfl⟩ := heldAs_cameras hsubs hheld
    exact ⟨rfl, hlocation⟩
  refine ⟨rfl, fun _ => ⟨?_, ?_, ?_⟩⟩
  · intro g _ sub r sub' r' hheld _ _ _ hsimple
    rw [(heldAs_cameras hsubs hheld).1] at hsimple
    cases hsimple
  · intro g g' x x' _ _ _ hx hx' _
    exact Except.ok.inj ((hselected hx).2.symm.trans (hselected hx').2)
  · intro g task x _ hget hx
    have hids : task.inputs.map InputEntity.id = ["cam"] :=
      of_decide_eq_true (htasks task (GoMap.mem_values.mpr ⟨_, hget⟩))
    have hknown : isNewInput (exampleStream "Camera" "EntityID") task x = false := by
      rw [← Bool.not_eq_true, isNewInput_eq_true_iff rfl, hids, (hselected hx).1]
      simp
    have hlength : task.inputs.length = 1 := by
      have := congrArg List.length hids
      rwa [List.length_map] at this
    rw [Follows, cameraStream, hknown, if_neg (by simp), ← hlength]
    exact List.countP_le_length

-- the task follows the camera, and the second report of the new place changes nothing
theorem moved_camera_quiet : ∃ flow next,
    exec (step exampleMarshal) cameras [cameraAppears] = some flow ∧
      step exampleMarshal flow cameraMoves = some next ∧
        ∀ choices, Quiet exampleMarshal choices next cameraMoves := by
  have hrun : (exec (step exampleMarshal) cameras [cameraAppears, cameraMoves]).isSome = true := by
    decide +kernel
  obtain ⟨next, hnext⟩ := Option.isSome_iff_exists.mp hrun
  obtain ⟨flow, hflow, hstep⟩ := exec_concat.mp
    (show exec (step exampleMarshal) cameras ([cameraAppears] ++ [cameraMoves]) = some next
      from hnext)
  refine ⟨flow, next, hflow, hstep, ?_⟩
  refine repeated_update_quiet (established_exampleFlow _) ?_ hflow (by simp [cameraMoves, arrives])
    hstep (settling_cameraMoves hflow)
  intro e he
  rcases List.mem_pair.mp he with rfl | rfl
  · exact metadataNamed_placedAt _ _ _
  · exact metadataNamed_placedAt _ _ _

def carsAndBuses : FogFlow := exampleFlow [exampleStream "Car" "ALL", exampleStream "Bus" "ALL"]

def carArrives : Event := arrives "car" "Car" ⟨49, 8⟩

def busArrives : Event := arrives "bus" "Bus" ⟨49, 9⟩

def places (flow : FogFlow) : List (List Point) :=
  flow.executionPlan.values.map (fun task => task.inputs.map InputEntity.location)

-- the flow before and after the bus has been reported once more, and the actions
def reportedAgain : Option (FogFlow × FogFlow × Actions) :=
  (exec (step exampleMarshal) carsAndBuses [carArrives, busArrives]).bind (fun next =>
    (metadataDrivenTaskOrchestration exampleMarshal nearFirstChoices next busArrives.subID .update
      busArrives.registeredEntity).toOption.map (fun result => (next, result)))

-- both inputs have the empty id: each of the two entities moves the input of the other
theorem standing_vehicles_swapped : ∃ next result,
    exec (step exampleMarshal) carsAndBuses [carArrives, busArrives] = some next ∧
      metadataDrivenTaskOrchestration exampleMarshal nearFirstChoices next busArrives.subID .update
        busArrives.registeredEntity = .ok result ∧
      result.2.length = 2 ∧ places result.1 = (places next).map List.reverse ∧
      ¬ Quiet exampleMarshal nearFirstChoices next busArrives := by
  have hrun : reportedAgain.map (fun run => (run.2.2.length, places run.1, places run.2.1)) =
      some (2, [[⟨49, 9⟩, ⟨49, 8⟩]], [[⟨49, 8⟩, ⟨49, 9⟩]]) := by decide +kernel
  obtain ⟨⟨next, result⟩, hagain, hvalues⟩ := Option.map_eq_some_iff.mp hrun
  obtain ⟨next', hnext, hresult⟩ := Option.bind_eq_some_iff.mp hagain
  obtain ⟨result', hok, hpair⟩ := Option.map_eq_some_iff.mp hresult
  obtain ⟨rfl, rfl⟩ := Prod.mk.inj hpair
  obtain ⟨hlength, hplaces⟩ := Prod.mk.inj hvalues
  obtain ⟨hbefore, hafter⟩ := Prod.mk.inj hplaces
  have horch : metadataDrivenTaskOrchestration exampleMarshal nearFirstChoices next'
      busArrives.subID .update busArrives.registeredEntity = .ok result' := by
    cases h : metadataDrivenTaskOrchestration exampleMarshal nearFirstChoices next'
        busArrives.subID .update busArrives.registeredEntity with
    | error fault =>
      rw [h] at hok
      cases hok
    | ok result =>
      rw [h] at hok
      rw [Option.some.inj hok]
  refine ⟨next', result', hnext, horch, hlength, by rw [hbefore, hafter]; rfl, ?_⟩
  rintro ⟨last, hlast, -⟩
  rw [Except.ok.inj (horch.symm.trans hlast)] at hlength
  cases hlength

end FogFlow.Master.RepeatedUpdate
