import FogFlow.Master.GroupPanics
import FogFlow.Master.Migration

namespace FogFlow.Master.Relocation

open Ngsi Datamodel Loop GroupPanics

-- the inputs of the entity that are at another place than the entity
def stale (entity : InputEntity) (inputs : List InputEntity) : Nat :=
  inputs.countP (fun input => input.id == entity.id && !input.location.isEqual entity.location)

structure InPlace (selector : InputStreamConfig) (task : TaskConfig) (entity : InputEntity) :
    Prop where
  known : isNewInput selector task entity = false
  placed : stale entity task.inputs = 0

-- a new entity is appended and a known one moves one input, so this is what one visit can mend
def Follows (selector : InputStreamConfig) (task : TaskConfig) (entity : InputEntity) : Prop :=
  stale entity task.inputs ≤ if isNewInput selector task entity then 0 else 1

structure Nears (selector : InputStreamConfig) (task next : TaskConfig) (entity : InputEntity) :
    Prop where
  stale : stale entity next.inputs ≤ stale entity task.inputs
  known : isNewInput selector task entity = false → isNewInput selector next entity = false

section Merge

variable {flow : FogFlow} {selector : InputStreamConfig} {task next last : TaskConfig}
  {actions : Actions} {entity other : InputEntity} {inputs : List InputEntity}

theorem stale_eq_zero_iff : stale entity inputs = 0 ↔
    ∀ input ∈ inputs, input.id = entity.id → input.location = entity.location := by
  simp [stale, List.countP_eq_zero, isEqual_iff]

theorem stale_append (inputs' : List InputEntity) :
    stale entity (inputs ++ inputs') = stale entity inputs + stale entity inputs' :=
  List.countP_append

theorem stale_congr (hid : other.id = entity.id) (hlocation : other.location = entity.location) :
    stale other inputs = stale entity inputs := by
  simp only [stale, hid, hlocation]

theorem stale_relocate_self :
    stale entity (relocate entity inputs).1 = stale entity inputs - 1 := by
  induction inputs with
  | nil => rfl
  | cons input rest ih =>
    unfold relocate
    split
    · rename_i hmoved
      have hself : entity.location.isEqual entity.location = true := isEqual_iff.mpr rfl
      simp [stale, hmoved, hself]
    · rename_i hkept
      rw [stale, List.countP_cons, if_neg hkept, stale, List.countP_cons, if_neg hkept]
      exact ih

theorem stale_relocate_ne (hne : other.id ≠ entity.id) :
    stale other (relocate entity inputs).1 = stale other inputs := by
  induction inputs with
  | nil => rfl
  | cons input rest ih =>
    unfold relocate
    split
    · rename_i hmoved
      rw [Bool.and_eq_true, beq_iff_eq] at hmoved
      have hother : input.id ≠ other.id := fun heq => hne (heq.symm.trans hmoved.1)
      simp [stale, hother]
    · rw [stale, List.countP_cons, stale, List.countP_cons]
      exact congrArg (· + _) ih

theorem isNewInput_congr (hids : next.inputs.map InputEntity.id = task.inputs.map InputEntity.id)
    (htypes : next.inputs.map InputEntity.type = task.inputs.map InputEntity.type) :
    isNewInput selector next entity = isNewInput selector task entity := by
  have hid : ∀ t : TaskConfig, (t.inputs.any fun input => input.id == entity.id) =
      (t.inputs.map InputEntity.id).any (fun id => id == entity.id) := fun t => by
    rw [List.any_map]
    rfl
  have htype : ∀ t : TaskConfig, (t.inputs.any fun input => input.type == entity.type) =
      (t.inputs.map InputEntity.type).any (fun type => type == entity.type) := fun t => by
    rw [List.any_map]
    rfl
  cases hs : selector.isSimpleByType with
  | true => simp [isNewInput, hs, htype, htypes]
  | false => simp [isNewInput, hs, hid, hids]

theorem known_of_mem (input : InputEntity) (hin : input ∈ task.inputs) (hid : input.id = entity.id)
    (htype : input.type = entity.type) : isNewInput selector task entity = false := by
  unfold isNewInput
  rw [Bool.not_eq_false', List.any_eq_true]
  refine ⟨input, hin, ?_⟩
  split_ifs <;> simp [hid, htype]

theorem inPlace_of_nears (h : Nears selector task next entity)
    (hplaced : InPlace selector task entity) : InPlace selector next entity :=
  ⟨h.known hplaced.known, Nat.le_zero.mp (hplaced.placed ▸ h.stale)⟩

theorem follows_of_nears (h : Nears selector task next entity)
    (hfollows : Follows selector task entity) : Follows selector next entity := by
  unfold Follows at *
  cases hnew : isNewInput selector task entity with
  | true =>
    rw [hnew, if_pos rfl] at hfollows
    exact (h.stale.trans hfollows).trans (Nat.zero_le _)
  | false =>
    rw [hnew, if_neg (by simp)] at hfollows
    rw [h.known hnew, if_neg (by simp)]
    exact h.stale.trans hfollows

theorem nears_refl : Nears selector task task entity := ⟨le_rfl, id⟩

theorem nears_trans (h : Nears selector task next entity) (h' : Nears selector next last entity) :
    Nears selector task last entity :=
  ⟨h'.stale.trans h.stale, fun hknown => h'.known (h.known hknown)⟩

theorem stale_newInputEntity (h : other.id = entity.id → other.location = entity.location) :
    stale other [newInputEntity selector entity] = 0 := by
  refine stale_eq_zero_iff.mpr (fun input hin hid => ?_)
  obtain rfl := List.mem_singleton.mp hin
  exact (h hid.symm).symm

theorem nears_added (h : other.id = entity.id → other.location = entity.location) :
    Nears selector task { task with inputs := task.inputs ++ [newInputEntity selector entity] }
      other := by
  constructor
  · rw [stale_append, stale_newInputEntity h, Nat.add_zero]
  · intro hknown
    unfold isNewInput at *
    rw [Bool.not_eq_false'] at *
    rw [List.any_append, hknown, Bool.true_or]

theorem nears_relocated (h : other.id = entity.id → other.location = entity.location)
    (workerID : String) :
    Nears selector task
      { task with inputs := (relocate entity task.inputs).1, workerID := workerID } other := by
  constructor
  · by_cases hid : other.id = entity.id
    · rw [stale_congr hid (h hid), stale_congr hid (h hid), stale_relocate_self]
      exact Nat.sub_le _ _
    · rw [stale_relocate_ne hid]
  · intro hknown
    rw [← hknown]
    exact isNewInput_congr (relocate_ids _ _) (relocate_types _ _)

theorem inPlace_added (hnew : isNewInput selector task entity = true)
    (h : Follows selector task entity) :
    InPlace selector { task with inputs := task.inputs ++ [newInputEntity selector entity] }
      entity := by
  rw [Follows, hnew, if_pos rfl] at h
  refine ⟨?_, ?_⟩
  · exact known_of_mem (newInputEntity selector entity) (by simp) rfl rfl
  · rw [stale_append, stale_newInputEntity (fun _ => rfl), Nat.add_zero]
    exact Nat.le_zero.mp h

theorem inPlace_relocated (hold : isNewInput selector task entity = false)
    (h : Follows selector task entity) (workerID : String) :
    InPlace selector
      { task with inputs := (relocate entity task.inputs).1, workerID := workerID } entity := by
  rw [Follows, hold, if_neg (by simp)] at h
  refine ⟨(nears_relocated (fun _ => rfl) workerID).known hold, ?_⟩
  rw [stale_relocate_self]
  exact Nat.sub_eq_zero_of_le h

theorem nears_mergeStep {result : TaskConfig × Actions}
    (h : MergeStep flow selector task actions entity result)
    (hplace : other.id = entity.id → other.location = entity.location) :
    Nears selector task result.1 other := by
  cases h with
  | added deployed _ _ => exact nears_added hplace
  | kept _ => exact nears_relocated hplace task.workerID
  | migrated workerID _ _ _ => exact nears_relocated hplace workerID

theorem inPlace_mergeStep {result : TaskConfig × Actions}
    (h : MergeStep flow selector task actions entity result)
    (hfollows : Follows selector task entity) : InPlace selector result.1 entity := by
  cases h with
  | added deployed hnew _ => exact inPlace_added hnew hfollows
  | kept hold => exact inPlace_relocated hold hfollows task.workerID
  | migrated workerID hold _ _ => exact inPlace_relocated hold hfollows workerID

-- the merged entities are among those that are found for the task, which agree on their places
theorem inPlace_mergeInputs {S : InputEntity → Prop}
    {workerSelection : Nat → List Point → String} {entities : List InputEntity}
    {result : TaskConfig × Actions}
    (hplaces : ∀ x y, S x → S y → x.id = y.id → x.location = y.location)
    (hfollows : ∀ x, S x → Follows selector task x) (hS : ∀ x ∈ entities, S x)
    (h : entities.zipIdx.foldlM (mergeInput flow selector workerSelection) (task, actions) =
      .ok result) :
    (∀ x ∈ entities, InPlace selector result.1 x) ∧ ∀ x, S x → Nears selector task result.1 x := by
  refine foldlM_zipIdx_invariant (I := fun done state =>
    (∀ x ∈ done, InPlace selector state.1 x) ∧ ∀ x, S x → Nears selector task state.1 x) h
    ⟨by simp, fun x _ => nears_refl⟩ ?_
  intro done entity rest i state next hsplit ⟨hdone, hnears⟩ hnext
  have hentity : S entity := hS entity (by rw [hsplit]; simp)
  have hstep := mergeInput_cases hnext
  have hmerged : ∀ x, S x → Nears selector state.1 next.1 x :=
    fun x hx => nears_mergeStep hstep (hplaces x entity hx hentity)
  refine ⟨fun x hx => ?_, fun x hx => nears_trans (hnears x hx) (hmerged x hx)⟩
  rcases List.mem_append.mp hx with hx | hx
  · have hbefore : S x := hS x (by rw [hsplit]; exact List.mem_append_left _ hx)
    exact inPlace_of_nears (hmerged x hbefore) (hdone x hx)
  · obtain rfl := List.mem_singleton.mp hx
    exact inPlace_mergeStep hstep (follows_of_nears (hnears x hentity) (hfollows x hentity))

theorem mergeInput_inPlace {workerSelection : Nat → List Point → String}
    {state : TaskConfig × Actions} {entity : InputEntity × Nat}
    (h : InPlace selector state.1 entity.1) :
    mergeInput flow selector workerSelection state entity = .ok state := by
  simp [mergeInput, h.known, relocate_unmoved (stale_eq_zero_iff.mp h.placed), newOptimalWorkerID]

end Merge

section Search

variable {subscriptions : GoMap InputSubscription} {g : GroupInfo} {selector : InputStreamConfig}
  {r : EntityRegistration} {entities : List InputEntity} {subRank : String → Nat}
  {regRank : String → String → Nat}

-- an entity that some order of the loops finds for the group
def Selected (subscriptions : GoMap InputSubscription) (g : GroupInfo) (entity : InputEntity) :
    Prop :=
  ∃ sub r location, HeldAs subscriptions sub r ∧ Matched g sub.inputSelector r ∧
    r.getLocation = .ok location ∧ entity = inputEntity sub.inputSelector r location

-- the empty type that the search for a stream by type compares is not the one of another entity
def Unskipped (subscriptions : GoMap InputSubscription) (g : GroupInfo) : Prop :=
  ∀ sub r sub' r', HeldAs subscriptions sub r → HeldAs subscriptions sub' r' →
    Matched g sub.inputSelector r → Matched g sub'.inputSelector r' →
    sub.inputSelector.isSimpleByType = true → r'.type = "" →
    sub'.inputSelector = sub.inputSelector ∧ r' = r

def Listed (g : GroupInfo) (entities : List InputEntity) (selector : InputStreamConfig)
    (r : EntityRegistration) : Prop :=
  GroupPanics.Found selector g r ∧ (Matched g selector r →
    ∃ location, r.getLocation = .ok location ∧ inputEntity selector r location ∈ entities)

theorem listed_mono {next : List InputEntity} (hsub : entities ⊆ next)
    (h : Listed g entities selector r) : Listed g next selector r := by
  refine ⟨h.1, fun hmatched => ?_⟩
  obtain ⟨location, hlocation, hin⟩ := h.2 hmatched
  exact ⟨location, hlocation, hsub hin⟩

theorem selected_of_visit {sub : InputSubscription} {next : List InputEntity}
    (hheld : HeldAs subscriptions sub r) (hentities : ∀ x ∈ entities, Selected subscriptions g x)
    (h : Visit g entities sub.inputSelector r next) : ∀ x ∈ next, Selected subscriptions g x := by
  cases h with
  | unmatched _ => exact hentities
  | skipped _ _ _ _ _ => exact hentities
  | listed location hmatched hlocation =>
    intro x hx
    rcases List.mem_append.mp hx with hx | hx
    · exact hentities x hx
    · exact ⟨sub, r, location, hheld, hmatched, hlocation, List.mem_singleton.mp hx⟩

theorem listed_of_visit {sub : InputSubscription} {next : List InputEntity}
    (hskip : Unskipped subscriptions g) (hheld : HeldAs subscriptions sub r)
    (hentities : ∀ x ∈ entities, Selected subscriptions g x)
    (h : Visit g entities sub.inputSelector r next) : Listed g next sub.inputSelector r := by
  cases h with
  | unmatched hfalse =>
    have hnot : ¬ Matched g sub.inputSelector r := by
      intro hmatched
      cases hfalse.symm.trans hmatched
    exact ⟨⟨⟨false, hfalse⟩, fun hmatched => absurd hmatched hnot⟩,
      fun hmatched => absurd hmatched hnot⟩
  | skipped entity hmatched hsimple hin htype =>
    obtain ⟨sub', r', location, hheld', hmatched', hlocation, rfl⟩ := hentities entity hin
    obtain ⟨hselector, rfl⟩ := hskip sub r sub' r' hheld hheld' hmatched hmatched' hsimple htype
    rw [hselector] at hin
    exact ⟨⟨⟨true, hmatched⟩, fun _ => ⟨location, hlocation⟩⟩,
      fun _ => ⟨location, hlocation, hin⟩⟩
  | listed location hmatched hlocation =>
    exact ⟨⟨⟨true, hmatched⟩, fun _ => ⟨location, hlocation⟩⟩,
      fun _ => ⟨location, hlocation, by simp⟩⟩

theorem selected_of_search (h : searchRelevantEntities subscriptions g subRank regRank =
    .ok entities) : ∀ x ∈ entities, Selected subscriptions g x :=
  search_invariant (I := fun _ found => ∀ x ∈ found, Selected subscriptions g x) h (by simp)
    (fun _ _ _ _ subID k hsub hr hfound hvisit =>
      selected_of_visit ⟨subID, k, hsub, hr⟩ hfound hvisit)

theorem listed_of_search (hskip : Unskipped subscriptions g)
    (h : searchRelevantEntities subscriptions g subRank regRank = .ok entities)
    {sub : InputSubscription} (hheld : HeldAs subscriptions sub r) :
    Listed g entities sub.inputSelector r := by
  have hloop := search_invariant (I := fun done found =>
    (∀ x ∈ found, Selected subscriptions g x) ∧
      ∀ visit ∈ done, Listed g found visit.1.inputSelector visit.2) h ⟨by simp, by simp⟩ ?_
  · exact hloop.2 (sub, r) (mem_visits.mpr hheld)
  · intro done visit found next subID k hsub hr ⟨hfound, hdone⟩ hvisit
    have hheld' : HeldAs subscriptions visit.1 visit.2 := ⟨subID, k, hsub, hr⟩
    refine ⟨selected_of_visit hheld' hfound hvisit, fun before hbefore => ?_⟩
    rcases List.mem_append.mp hbefore with hbefore | hbefore
    · exact listed_mono (visit_subset hvisit) (hdone before hbefore)
    · rw [List.mem_singleton.mp hbefore]
      exact listed_of_visit hskip hheld' hfound hvisit

theorem mem_of_selected (hskip : Unskipped subscriptions g)
    (h : searchRelevantEntities subscriptions g subRank regRank = .ok entities)
    {entity : InputEntity} (hselected : Selected subscriptions g entity) : entity ∈ entities := by
  obtain ⟨sub, r, location, hheld, hmatched, hlocation, rfl⟩ := hselected
  obtain ⟨location', hlocation', hin⟩ := (listed_of_search hskip h hheld).2 hmatched
  obtain rfl := Except.ok.inj (hlocation.symm.trans hlocation')
  exact hin

end Search

end FogFlow.Master.Relocation
