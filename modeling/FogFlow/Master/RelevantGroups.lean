import FogFlow.Library.Cells
import FogFlow.Master.GroupPanics

namespace FogFlow.Master.RelevantGroups

open Ngsi Datamodel Loop

-- the maps that make has returned so far: a GroupInfo is a reference to one of them
abbrev Heap := List GroupInfo

def makeMap (heap : Heap) : Heap × Nat := (heap ++ [∅], heap.length)

def assign (heap : Heap) (gf : Nat) (key : String) (value : GroupValue) : Heap :=
  heap.modify gf (fun info => info.set key value)

def setGroup (rank : String → Nat) (heap : Heap) (gf group : Nat) : Heap :=
  ((heap.getD group ∅).range rank).foldl (fun heap e => assign heap gf e.1 e.2) heap

-- every copy ranges over its source in an order of its own
def addCopy (setRank : Nat → String → Nat) (uniqueKey : String) (uniqueValue : GroupValue)
    (groups : Heap × List Nat) (info : Nat) : Heap × List Nat :=
  let (heap, newInfo) := makeMap groups.1
  let heap := setGroup (setRank newInfo) heap newInfo info
  (assign heap newInfo uniqueKey uniqueValue, groups.2 ++ [newInfo])

def multiplyGroups (setRank : Nat → String → Nat) (groups : Heap × List Nat) (uniqueKey : String)
    (uniqueValueItemList : List GroupValue) : Heap × List Nat :=
  let oldgroups := groups.2
  uniqueValueItemList.foldl (fun groups uniqueValue =>
    oldgroups.foldl (addCopy setRank uniqueKey uniqueValue) groups) (groups.1, [])

def getRelevantGroups (keyRank : String → Nat) (setRank : Nat → String → Nat)
    (uniqueKeys : GoMap (List GroupValue)) (sub : InputSubscription) (entityID : String)
    (heap : Heap) : Except Fault (Heap × List Nat) := do
  let (heap, info) := makeMap heap
  let key := groupedKey sub.inputSelector
  let value ← valueOf sub entityID
  .ok ((uniqueKeys.range keyRank).foldl (fun groups e =>
    if e.1 = key then groups else multiplyGroups setRank groups e.1 e.2)
    (assign heap info key value, [info]))

def returned (result : Heap × List Nat) : List GroupInfo := Cells.load result.1 result.2

-- every reference leads to a new map of its own, and the older maps are untouched
structure Unshared (old : Heap) (result : Heap × List Nat) : Prop where
  kept : old <+: result.1
  fresh : ∀ p ∈ result.2, old.length ≤ p
  allocated : Cells.Allocated result.1 result.2
  distinct : result.2.Nodup

-- what getRelevantGroups puts into a group
structure GroupFor (uniqueKeys : GoMap (List GroupValue)) (key : String) (value : GroupValue)
    (f : String → Option GroupValue) : Prop where
  own : f key = some value
  listed : ∀ k values, k ≠ key → uniqueKeys.get k = some values → ∃ v ∈ values, f k = some v
  only : ∀ k, k ≠ key → uniqueKeys.get k = none → f k = none

variable {heap : Heap} {info g : GroupInfo} {p : Nat} {key : String} {value : GroupValue}

def Denotes (heap : Heap) (p : Nat) (g : GroupInfo) : Prop :=
  ∃ info, heap[p]? = some info ∧ SameGroup info g

theorem Denotes.mono {more : Heap} (h : Denotes heap p g) (hp : heap <+: more) :
    Denotes more p g := by
  obtain ⟨info, hinfo, hsame⟩ := h
  exact ⟨info, Cells.getElem?_mono hinfo hp, hsame⟩

theorem assign_last (heap : Heap) (info : GroupInfo) (key : String) (value : GroupValue) :
    assign (heap ++ [info]) heap.length key value = heap ++ [info.set key value] :=
  Cells.modify_last heap info _

theorem foldl_assign_last (heap : Heap) (info : GroupInfo) (es : List KVPair) :
    es.foldl (fun h e => assign h heap.length e.1 e.2) (heap ++ [info]) =
      heap ++ [es.foldl (fun copy e => copy.set e.1 e.2) info] := by
  induction es generalizing info with
  | nil => rfl
  | cons e es ih =>
    rw [List.foldl_cons, assign_last, ih]
    rfl

theorem addCopy_eq (setRank : Nat → String → Nat) (key : String) (value : GroupValue)
    (hp : Denotes heap p g)
    (pointers : List Nat) : ∃ copy, addCopy setRank key value (heap, pointers) p =
        (heap ++ [copy], pointers ++ [heap.length]) ∧ SameGroup copy (g.set key value) := by
  obtain ⟨info, hinfo, hsame⟩ := hp
  have hsource : (heap ++ [∅]).getD p ∅ = info := by
    rw [List.getD_eq_getElem?_getD, Cells.getElem?_mono hinfo (List.prefix_append heap [∅])]
    rfl
  refine ⟨GoMap.set ((info.range (setRank heap.length)).foldl
    (fun copy e => GoMap.set copy e.1 e.2) ∅) key value, ?_, ?_⟩
  · simp only [addCopy, makeMap, setGroup, hsource, foldl_assign_last, assign_last]
  · intro k
    rw [GoMap.get_set, GoMap.get_set, GoMap.get_copy, hsame k]

-- the loop over the old groups, for one value of the key
theorem foldl_addCopy_eq (setRank : Nat → String → Nat) (key : String) (value : GroupValue)
    {oldgroups : List Nat} {groups : List GroupInfo}
    (h : List.Forall₂ (Denotes heap) oldgroups groups)
    (pointers : List Nat) :
    ∃ copies, oldgroups.foldl (addCopy setRank key value) (heap, pointers) =
        (heap ++ copies, pointers ++ List.range' heap.length copies.length) ∧
      List.Forall₂ SameGroup copies (groups.map (fun info => info.set key value)) := by
  induction oldgroups generalizing heap pointers groups with
  | nil =>
    cases h
    exact ⟨[], by simp, .nil⟩
  | cons p oldgroups ih =>
    obtain _ | ⟨hp, hrest⟩ := h
    obtain ⟨copy, hcopy, hsame⟩ := addCopy_eq setRank key value hp pointers
    have hmono : List.Forall₂ (Denotes (heap ++ [copy])) oldgroups _ :=
      hrest.imp (fun _ _ hq => hq.mono (List.prefix_append _ _))
    obtain ⟨copies, hcopies, hall⟩ := ih hmono (pointers ++ [heap.length])
    refine ⟨copy :: copies, ?_, .cons hsame hall⟩
    rw [List.foldl_cons, hcopy, hcopies]
    simp [List.range'_succ]

theorem foldl_values_eq (setRank : Nat → String → Nat) (key : String) {oldgroups : List Nat}
    {groups : List GroupInfo} (h : List.Forall₂ (Denotes heap) oldgroups groups)
    (pointers : List Nat) (values : List GroupValue) :
    ∃ copies, values.foldl (fun result uniqueValue =>
        oldgroups.foldl (addCopy setRank key uniqueValue) result) (heap, pointers) =
        (heap ++ copies, pointers ++ List.range' heap.length copies.length) ∧
      List.Forall₂ SameGroup copies (multiply groups key values) := by
  induction values generalizing heap pointers with
  | nil => exact ⟨[], by simp, .nil⟩
  | cons uniqueValue values ih =>
    obtain ⟨copies, hcopies, hsame⟩ := foldl_addCopy_eq setRank key uniqueValue h pointers
    have hmono : List.Forall₂ (Denotes (heap ++ copies)) oldgroups groups :=
      h.imp (fun _ _ hp => hp.mono (List.prefix_append _ _))
    obtain ⟨more, hmore, hall⟩ := ih hmono (pointers ++ List.range' heap.length copies.length)
    refine ⟨copies ++ more, ?_, List.rel_append hsame hall⟩
    rw [List.foldl_cons, hcopies, hmore]
    simp [List.append_assoc]

variable {old : Heap} {result : Heap × List Nat} {groups : List GroupInfo}

-- the references lead to the maps made last
def Latest (old : Heap) (result : Heap × List Nat) (groups : List GroupInfo) : Prop :=
  ∃ before infos, result = (before ++ infos, List.range' before.length infos.length) ∧
    old <+: before ∧ List.Forall₂ SameGroup infos groups

theorem denotes_range' (before : Heap) {infos : List GroupInfo}
    (h : List.Forall₂ SameGroup infos groups) :
    List.Forall₂ (Denotes (before ++ infos)) (List.range' before.length infos.length) groups := by
  induction h generalizing before with
  | nil => exact .nil
  | @cons info g infos groups hsame _ ih =>
    have hrest := ih (before ++ [info])
    rw [List.append_assoc, List.singleton_append, List.length_append, List.length_singleton] at hrest
    exact .cons ⟨info, by simp, hsame⟩ hrest

theorem Latest.multiply (h : Latest old result groups) (setRank : Nat → String → Nat)
    (uniqueKey : String) (values : List GroupValue) :
    Latest old (multiplyGroups setRank result uniqueKey values)
      (multiply groups uniqueKey values) := by
  obtain ⟨before, infos, rfl, hold, hsame⟩ := h
  obtain ⟨copies, hcopies, hall⟩ := foldl_values_eq setRank uniqueKey
    (denotes_range' before hsame) [] values
  exact ⟨before ++ infos, copies, by rw [multiplyGroups, hcopies, List.nil_append],
    hold.trans (List.prefix_append _ _), hall⟩

theorem Latest.unshared (h : Latest old result groups) : Unshared old result := by
  obtain ⟨before, infos, rfl, hold, -⟩ := h
  refine ⟨hold.trans (List.prefix_append _ _), fun p hp => ?_, fun p hp => ?_,
    List.nodup_range'⟩
  · exact hold.length_le.trans (List.mem_range'_1.mp hp).1
  · rw [List.length_append]
    exact (List.mem_range'_1.mp hp).2

theorem Latest.returned (h : Latest old result groups) :
    List.Forall₂ SameGroup (returned result) groups := by
  obtain ⟨before, infos, rfl, -, hsame⟩ := h
  rwa [RelevantGroups.returned, ← Cells.new_eq_range', Cells.load_new]

theorem getRelevantGroups_latest (keyRank : String → Nat) (setRank : Nat → String → Nat)
    (uniqueKeys : GoMap (List GroupValue)) {sub : InputSubscription} {entityID : String}
    (hvalue : valueOf sub entityID = .ok value) (heap : Heap) :
    ∃ result, getRelevantGroups keyRank setRank uniqueKeys sub entityID heap = .ok result ∧
      Latest heap result (product (groupedKey sub.inputSelector) value
        (uniqueKeys.range keyRank)) := by
  have heq := assign_last heap ∅ (groupedKey sub.inputSelector) value
  simp only [getRelevantGroups, makeMap, hvalue, ok_bind, heq]
  refine ⟨_, rfl, ?_⟩
  generalize uniqueKeys.range keyRank = table
  induction table using List.reverseRecOn with
  | nil => exact ⟨heap, _, rfl, List.prefix_refl _, .cons (fun _ => rfl) .nil⟩
  | append_singleton table e ih =>
    rw [List.foldl_append, List.foldl_cons, List.foldl_nil, product_concat]
    split_ifs
    · exact ih
    · exact ih.multiply setRank e.1 e.2

-- the copies hold the groups of the function on values
theorem getRelevantGroups_agrees {keyRank : String → Nat} {setRank : Nat → String → Nat}
    {uniqueKeys : GoMap (List GroupValue)} {sub : InputSubscription} {entityID : String}
    (h : Master.getRelevantGroups keyRank uniqueKeys sub entityID = .ok groups) (heap : Heap) :
    ∃ result, getRelevantGroups keyRank setRank uniqueKeys sub entityID heap = .ok result ∧
      List.Forall₂ SameGroup (returned result) groups ∧ Unshared heap result := by
  obtain ⟨value, hvalue, hgroups⟩ := bind_eq_ok.mp h
  obtain ⟨result, hresult, hlatest⟩ := getRelevantGroups_latest keyRank setRank uniqueKeys
    hvalue heap
  rw [product, Except.ok.inj hgroups] at hlatest
  exact ⟨result, hresult, hlatest.returned, hlatest.unshared⟩

theorem exists_congr_of_sameGroup {infos : List GroupInfo}
    (h : List.Forall₂ SameGroup infos groups) (f : String → Option GroupValue) :
    (∃ info ∈ infos, ∀ k, info.get k = f k) ↔ ∃ g ∈ groups, ∀ k, g.get k = f k := by
  induction h with
  | nil => simp
  | cons hsame _ ih =>
    simp only [List.exists_mem_cons_iff, ih]
    exact or_congr_left (forall_congr' (fun k => by rw [hsame k]))

theorem distinct_of_sameGroup {infos : List GroupInfo} (h : List.Forall₂ SameGroup infos groups)
    (hdistinct : groups.Pairwise (fun g g' => ¬ SameGroup g g')) :
    infos.Pairwise (fun info info' => ¬ SameGroup info info') := by
  induction h with
  | nil => exact .nil
  | @cons info g infos groups hsame hrest ih =>
    obtain ⟨hg, hgroups⟩ := List.pairwise_cons.mp hdistinct
    refine .cons (fun info' hinfo' heq => ?_) (ih hgroups)
    obtain ⟨g', hg', hsame'⟩ :=
      (exists_congr_of_sameGroup hrest info'.get).mp ⟨info', hinfo', fun _ => rfl⟩
    exact hg g' hg' (fun k => by rw [← hsame k, heq k, hsame' k])

-- a group of the product is a choice of one listed value for every other key of the table
theorem mem_product_iff {keyRank : String → Nat} {uniqueKeys : GoMap (List GroupValue)}
    {f : String → Option GroupValue} :
    (∃ g ∈ product key value (uniqueKeys.range keyRank), ∀ k, g.get k = f k) ↔
      GroupFor uniqueKeys key value f := by
  have hkeys := GoMap.range_keys_nodup keyRank uniqueKeys
  have hmem (k : String) : k ∈ (uniqueKeys.range keyRank).map (fun e => e.1) ↔
      uniqueKeys.get k ≠ none := by
    rw [List.mem_map, Option.ne_none_iff_exists']
    constructor
    · rintro ⟨⟨k, values⟩, he, rfl⟩
      exact ⟨values, GoMap.mem_range.mp he⟩
    · rintro ⟨values, hget⟩
      exact ⟨⟨k, values⟩, GoMap.mem_range.mpr hget, rfl⟩
  constructor
  · rintro ⟨g, hg, hf⟩
    obtain ⟨hpicks, hnone⟩ := picks_product hkeys hg
    obtain rfl : g.get = f := funext hf
    exact ⟨hpicks.own, fun k values hk hget => hpicks.listed k values hk (GoMap.mem_range.mpr hget),
      fun k hk hget => hnone k hk (fun hin => (hmem k).mp hin hget)⟩
  · intro h
    have hpicks : Picks key value (uniqueKeys.range keyRank) f :=
      ⟨h.own, fun k values hk hin => h.listed k values hk (GoMap.mem_range.mp hin)⟩
    obtain ⟨g, hg, hagree⟩ := exists_mem_product hkeys hpicks
    refine ⟨g, hg, fun k => ?_⟩
    by_cases hk : k = key
    · exact hagree k (Or.inl hk)
    · cases hget : uniqueKeys.get k with
      | none =>
        have hout : k ∉ (uniqueKeys.range keyRank).map (fun e => e.1) :=
          fun hin => (hmem k).mp hin hget
        rw [(picks_product hkeys hg).2 k hk hout, h.only k hk hget]
      | some values => exact hagree k (Or.inr ((hmem k).mpr (by simp [hget])))

theorem exists_groupFor_iff {uniqueKeys : GoMap (List GroupValue)} :
    (∃ f, GroupFor uniqueKeys key value f) ↔
      ∀ k, k ≠ key → uniqueKeys.get k ≠ some [] := by
  constructor
  · rintro ⟨f, hf⟩ k hk hempty
    obtain ⟨v, hv, -⟩ := hf.listed k [] hk hempty
    cases hv
  · intro h
    refine ⟨fun k => if k = key then some value else (uniqueKeys.get k).bind List.head?,
      by simp, fun k values hk hget => ?_, fun k hk hget => by simp [hk, hget]⟩
    cases values with
    | nil => exact absurd hget (h k hk)
    | cons v values => exact ⟨v, List.mem_cons_self, by simp [hk, hget]⟩

theorem relevant_groups_exact {uniqueKeys : GoMap (List GroupValue)}
    (hvalues : ∀ k values, uniqueKeys.get k = some values → values.Nodup)
    {sub : InputSubscription} {entityID : String} {entity : EntityRegistration}
    (hentity : sub.receivedEntityRegistrations.get entityID = some entity)
    (keyRank : String → Nat) (setRank : Nat → String → Nat) (heap : Heap) :
    ∃ result, getRelevantGroups keyRank setRank uniqueKeys sub entityID heap = .ok result ∧
      (∀ f, (∃ info ∈ returned result, ∀ k, info.get k = f k) ↔
        GroupFor uniqueKeys (groupedKey sub.inputSelector)
          (GroupPanics.groupValue sub.inputSelector entity) f) ∧
      (returned result).Pairwise (fun info info' => ¬ SameGroup info info') ∧
      (returned result = [] ↔
        ∃ k, k ≠ groupedKey sub.inputSelector ∧ uniqueKeys.get k = some []) ∧
      Unshared heap result := by
  obtain ⟨result, hresult, hlatest⟩ := getRelevantGroups_latest keyRank setRank uniqueKeys
    (GroupPanics.valueOf_groupValue hentity) heap
  have hexact (f : String → Option GroupValue) :
      (∃ info ∈ returned result, ∀ k, info.get k = f k) ↔
        GroupFor uniqueKeys (groupedKey sub.inputSelector)
          (GroupPanics.groupValue sub.inputSelector entity) f :=
    (exists_congr_of_sameGroup hlatest.returned f).trans mem_product_iff
  refine ⟨result, hresult, hexact, ?_, ?_, hlatest.unshared⟩
  · refine distinct_of_sameGroup hlatest.returned (product_distinct
      (GoMap.range_keys_nodup keyRank uniqueKeys) (fun e he => ?_))
    exact hvalues e.1 e.2 (GoMap.mem_range.mp he)
  · have hnone : returned result = [] ↔ ¬ ∃ f, GroupFor uniqueKeys
        (groupedKey sub.inputSelector) (GroupPanics.groupValue sub.inputSelector entity) f := by
      constructor
      · rintro hempty ⟨f, hf⟩
        obtain ⟨info, hinfo, -⟩ := (hexact f).mpr hf
        rw [hempty] at hinfo
        cases hinfo
      · intro hno
        refine List.eq_nil_iff_forall_not_mem.mpr (fun info hinfo => hno ⟨info.get, ?_⟩)
        exact (hexact _).mp ⟨info, hinfo, fun _ => rfl⟩
    rw [hnone, exists_groupFor_iff]
    simp

def cameras : InputSubscription :=
  ⟨⟨"Camera", [], "EntityID", false, "", "", "", ""⟩, "sub1",
    GoMap.set ∅ "camera1" ⟨"camera1", "Camera", ∅, ∅, "http://broker"⟩⟩

def cameraKeys : GoMap (List GroupValue) :=
  GoMap.set (GoMap.set ∅ "Camera-EntityID" [.text "camera1", .text "camera2"]) "Pet-EntityID"
    [.text "pet1", .text "pet2"]

theorem cameraKeys_nodup (k : String) (values : List GroupValue)
    (h : cameraKeys.get k = some values) : values.Nodup := by
  rw [cameraKeys, GoMap.get_set, GoMap.get_set] at h
  split_ifs at h
  · rw [← Option.some.inj h]
    decide
  · rw [← Option.some.inj h]
    decide
  · cases h

theorem camera_groups_exact :
    ∃ result, getRelevantGroups (fun _ => 0) (fun _ _ => 0) cameraKeys cameras "camera1" [] =
        .ok result ∧
      (∃ info ∈ returned result, info.get "Pet-EntityID" = some (.text "pet2")) ∧
      Unshared [] result := by
  obtain ⟨result, hresult, hexact, -, -, hunshared⟩ := @relevant_groups_exact cameraKeys
    cameraKeys_nodup cameras "camera1" _ rfl (fun _ => 0) (fun _ _ => 0) []
  have hgroup : GroupFor cameraKeys "Camera-EntityID" (.text "camera1")
      (fun k => if k = "Camera-EntityID" then some (.text "camera1")
        else if k = "Pet-EntityID" then some (.text "pet2") else none) := by
    refine ⟨rfl, fun k values hk hget => ?_, fun k hk hget => ?_⟩
    · rw [cameraKeys, GoMap.get_set, GoMap.get_set, if_neg hk] at hget
      split_ifs at hget with hpet
      · rw [← Option.some.inj hget]
        exact ⟨.text "pet2", by decide, by simp [hpet]⟩
      · cases hget
    · rw [cameraKeys, GoMap.get_set, GoMap.get_set, if_neg hk] at hget
      split_ifs at hget with hpet
      simp [hk, hpet]
  obtain ⟨info, hinfo, hf⟩ := (hexact _).mpr hgroup
  exact ⟨result, hresult, ⟨info, hinfo, hf "Pet-EntityID"⟩, hunshared⟩

end FogFlow.Master.RelevantGroups
