import FogFlow.Discovery.Reads
import Mathlib.Data.Set.Basic

namespace FogFlow.Discovery.QueryLaws

open Ngsi Loop Execution
open Requests (Request Operation operationsOf)
open Reads (KeyedEntry Keyed LeavesEntries)

variable (math : FloatMath) (matchString : MatchString)

-- whatever the orders of its loops, the query returns the entities found
def Answers (list : CtxRegistrationList) (entities : List EntityId) (attributes : List String)
    (restriction : Restriction) (found : Set EntityId) : Prop :=
  ∀ rank metaRank, ∃ entityMap,
    queryEntities math matchString rank metaRank list entities attributes restriction =
      .ok entityMap ∧
    ∀ e, e ∈ found ↔ ∃ url es, entityMap.get url = some es ∧ e ∈ es

structure Plain (list : CtxRegistrationList) (entities : List EntityId) (attributes : List String)
    (restriction : Restriction) : Prop where
  notNearby : ∀ scope ∈ restriction.scopes, scope.type ≠ "nearby"
  notLd : restriction.restrictionType ≠ "ld"
  ends : ∀ eid registration, list.get eid = some registration → ∀ metaRank,
    Ends (matchingWithFilters math matchString metaRank registration entities attributes restriction)

def withScopes (restriction : Restriction) (scopes : List OperationScope) : Restriction :=
  { restriction with scopes := scopes }

structure FilterLaws (list : CtxRegistrationList) : Prop where
  entities : ∀ entities entities' attributes restriction,
    Plain math matchString list entities attributes restriction →
    Plain math matchString list entities' attributes restriction → ∃ found found',
      Answers math matchString list entities attributes restriction found ∧
      Answers math matchString list entities' attributes restriction found' ∧
      Answers math matchString list (entities ++ entities') attributes restriction (found ∪ found')
  attributes : ∀ entities attributes attributes' restriction,
    Plain math matchString list entities attributes restriction →
    Plain math matchString list entities attributes' restriction → ∃ found found',
      Answers math matchString list entities attributes restriction found ∧
      Answers math matchString list entities attributes' restriction found' ∧
      Answers math matchString list entities (attributes ++ attributes') restriction
        (found ∩ found')
  scopes : ∀ entities attributes restriction scopes scopes',
    Plain math matchString list entities attributes (withScopes restriction scopes) →
    Plain math matchString list entities attributes (withScopes restriction scopes') →
    ∃ found found',
      Answers math matchString list entities attributes (withScopes restriction scopes) found ∧
      Answers math matchString list entities attributes (withScopes restriction scopes') found' ∧
      Answers math matchString list entities attributes
        (withScopes restriction (scopes ++ scopes')) (found ∩ found')

-- no two entries of the repository are the same entity to a query
def Distinct (list : CtxRegistrationList) : Prop :=
  ∀ eid eid' r r', list.get eid = some r → list.get eid' = some r' → r.id = r'.id →
    r.type = r'.type → eid = eid'

structure Fits (registration : EntityRegistration) (entities : List EntityId)
    (attributes : List String) (scopes : List OperationScope) : Prop where
  id : matchIds matchString registration entities = true
  attributes : matchAttributes registration.attributesList attributes = true
  scopes : ∀ scope ∈ scopes, ScopeHolds math registration.metadataList scope

def entityOf (registration : EntityRegistration) : EntityId :=
  ⟨registration.type, false, registration.id⟩

def fitting (list : CtxRegistrationList) (entities : List EntityId) (attributes : List String)
    (scopes : List OperationScope) : Set EntityId :=
  {e | ∃ eid registration, list.get eid = some registration ∧
    Fits math matchString registration entities attributes scopes ∧ e = entityOf registration}

variable {math matchString} {list : CtxRegistrationList} {entities entities' : List EntityId}
  {attributes attributes' : List String} {restriction : Restriction}
  {scopes scopes' : List OperationScope} {registration : EntityRegistration}

theorem matchingWithFilters_eq_true (hld : restriction.restrictionType ≠ "ld")
    {metaRank : MetaRank} :
    matchingWithFilters math matchString metaRank registration entities attributes restriction =
        .ok true ↔ Fits math matchString registration entities attributes restriction.scopes := by
  unfold matchingWithFilters
  split_ifs with hid hattr
  · exact iff_of_false (by simp) (fun h => by simp [h.id] at hid)
  · exact iff_of_false (by simp) (fun h => by simp [h.attributes] at hattr)
  · rw [matchMetadatas_eq_true]
    simp only [Bool.not_eq_false] at hid hattr
    exact ⟨fun h => ⟨hid, hattr, h⟩, fun h => h.scopes⟩

theorem getNearbyFilter_eq_none (h : ∀ scope ∈ restriction.scopes, scope.type ≠ "nearby") :
    getNearbyFilter restriction = .ok none := by
  have hfind : restriction.scopes.find? (fun scope => scope.type == "nearby") = none := by
    rw [List.find?_eq_none]
    exact fun scope hmem => by simpa using h scope hmem
  unfold getNearbyFilter
  rw [hfind]

theorem candidatesOf_total (h : Plain math matchString list entities attributes restriction)
    (rank : String → Nat) (metaRank : String → MetaRank) :
    ∃ candidates, candidatesOf math matchString rank metaRank list none entities attributes
      restriction = .ok candidates := by
  refine foldlM_ends.mpr (fun e he => ?_)
  obtain ⟨matched, hmatched⟩ := h.ends e.1 e.2 (GoMap.mem_range.mp he) (metaRank e.1)
  unfold candidateOf
  rw [hmatched, ok_bind]
  cases matched <;> exact ends_ok _

theorem answers_fitting (h : Plain math matchString list entities attributes restriction) :
    Answers math matchString list entities attributes restriction
      (fitting math matchString list entities attributes restriction.scopes) := by
  intro rank metaRank
  obtain ⟨candidates, hcandidates⟩ := candidatesOf_total h rank metaRank
  refine ⟨entityMapOf candidates, ?_, fun e => ?_⟩
  · unfold queryEntities
    rw [getNearbyFilter_eq_none h.notNearby, ok_bind, hcandidates]
    rfl
  · rw [mem_entityMapOf]
    constructor
    · rintro ⟨eid, registration, hget, hfits, rfl⟩
      obtain ⟨c, hc, hdescribes⟩ := mem_candidatesOf_of_matching hcandidates hget
        ((matchingWithFilters_eq_true h.notLd).mpr hfits)
      refine ⟨c, hc, ?_⟩
      rw [hdescribes.id, hdescribes.type]
      rfl
    · rintro ⟨c, hc, rfl⟩
      obtain ⟨eid, registration, hget, hmatch, hdescribes⟩ :=
        matching_of_mem_candidatesOf hcandidates hc
      refine ⟨eid, registration, hget, (matchingWithFilters_eq_true h.notLd).mp hmatch, ?_⟩
      rw [hdescribes.id, hdescribes.type]
      rfl

theorem matchIds_append :
    matchIds matchString registration (entities ++ entities') =
      (matchIds matchString registration entities ||
        matchIds matchString registration entities') := by
  simp [matchIds, List.any_append]

theorem matchAttributes_append {list : GoMap ContextRegistrationAttribute} :
    matchAttributes list (attributes ++ attributes') =
      (matchAttributes list attributes && matchAttributes list attributes') := by
  simp [matchAttributes, List.all_append]

theorem fits_entities_append :
    Fits math matchString registration (entities ++ entities') attributes scopes ↔
      Fits math matchString registration entities attributes scopes ∨
        Fits math matchString registration entities' attributes scopes := by
  have hids : matchIds matchString registration (entities ++ entities') =
      (matchIds matchString registration entities || matchIds matchString registration entities') :=
    matchIds_append
  constructor
  · rintro ⟨hid, hattr, hscopes⟩
    rw [hids, Bool.or_eq_true] at hid
    exact hid.imp (fun h => ⟨h, hattr, hscopes⟩) (fun h => ⟨h, hattr, hscopes⟩)
  · rintro (⟨hid, hattr, hscopes⟩ | ⟨hid, hattr, hscopes⟩)
    · exact ⟨by rw [hids, hid, Bool.true_or], hattr, hscopes⟩
    · exact ⟨by rw [hids, hid, Bool.or_true], hattr, hscopes⟩

theorem fits_attributes_append :
    Fits math matchString registration entities (attributes ++ attributes') scopes ↔
      Fits math matchString registration entities attributes scopes ∧
        Fits math matchString registration entities attributes' scopes := by
  constructor
  · rintro ⟨hid, hattr, hscopes⟩
    rw [matchAttributes_append, Bool.and_eq_true] at hattr
    exact ⟨⟨hid, hattr.1, hscopes⟩, ⟨hid, hattr.2, hscopes⟩⟩
  · rintro ⟨⟨hid, hattr, hscopes⟩, ⟨-, hattr', -⟩⟩
    exact ⟨hid, by rw [matchAttributes_append, hattr, hattr']; rfl, hscopes⟩

theorem fits_scopes_append :
    Fits math matchString registration entities attributes (scopes ++ scopes') ↔
      Fits math matchString registration entities attributes scopes ∧
        Fits math matchString registration entities attributes scopes' := by
  constructor
  · rintro ⟨hid, hattr, hscopes⟩
    rw [List.forall_mem_append] at hscopes
    exact ⟨⟨hid, hattr, hscopes.1⟩, ⟨hid, hattr, hscopes.2⟩⟩
  · rintro ⟨⟨hid, hattr, hscopes⟩, ⟨-, -, hscopes'⟩⟩
    exact ⟨hid, hattr, List.forall_mem_append.mpr ⟨hscopes, hscopes'⟩⟩

theorem fitting_union {entities'' : List EntityId}
    (hfits : ∀ registration, Fits math matchString registration entities'' attributes scopes ↔
      Fits math matchString registration entities attributes scopes ∨
        Fits math matchString registration entities' attributes scopes) :
    fitting math matchString list entities'' attributes scopes =
      fitting math matchString list entities attributes scopes ∪
        fitting math matchString list entities' attributes scopes := by
  ext e
  constructor
  · rintro ⟨eid, registration, hget, hfit, he⟩
    exact ((hfits registration).mp hfit).imp (fun h => ⟨eid, registration, hget, h, he⟩)
      (fun h => ⟨eid, registration, hget, h, he⟩)
  · rintro (⟨eid, registration, hget, hfit, he⟩ | ⟨eid, registration, hget, hfit, he⟩)
    · exact ⟨eid, registration, hget, (hfits registration).mpr (Or.inl hfit), he⟩
    · exact ⟨eid, registration, hget, (hfits registration).mpr (Or.inr hfit), he⟩

-- two filters can only be answered by one entry each where entities are distinct
theorem fitting_inter (hdistinct : Distinct list) {entities'' : List EntityId}
    {attributes'' : List String} {scopes'' : List OperationScope}
    (hfits : ∀ registration, Fits math matchString registration entities'' attributes'' scopes'' ↔
      Fits math matchString registration entities attributes scopes ∧
        Fits math matchString registration entities' attributes' scopes') :
    fitting math matchString list entities'' attributes'' scopes'' =
      fitting math matchString list entities attributes scopes ∩
        fitting math matchString list entities' attributes' scopes' := by
  ext e
  constructor
  · rintro ⟨eid, registration, hget, hfit, he⟩
    obtain ⟨hfit, hfit'⟩ := (hfits registration).mp hfit
    exact ⟨⟨eid, registration, hget, hfit, he⟩, ⟨eid, registration, hget, hfit', he⟩⟩
  · rintro ⟨⟨eid, r, hget, hfit, rfl⟩, ⟨eid', r', hget', hfit', he⟩⟩
    obtain ⟨htype, -, hid⟩ := EntityId.mk.inj he
    obtain rfl := hdistinct eid eid' r r' hget hget' hid htype
    obtain rfl := Option.some.inj (hget.symm.trans hget')
    exact ⟨eid, r, hget, (hfits r).mpr ⟨hfit, hfit'⟩, rfl⟩

theorem ends_matchingWithFilters (hld : restriction.restrictionType ≠ "ld") {metaRank : MetaRank} :
    Ends (matchingWithFilters math matchString metaRank registration entities attributes
        restriction) ↔
      (matchIds matchString registration entities = true →
        matchAttributes registration.attributesList attributes = true →
          Ends (matchMetadatas math metaRank registration.metadataList restriction)) := by
  unfold matchingWithFilters
  split_ifs with hid hattr
  · simp [hid]
  · simp [hattr]
  · simp only [Bool.not_eq_false] at hid hattr
    simp [hid, hattr]

-- the scopes of the second list are reached where those of the first hold
theorem matchMetadatas_append {metaRank : MetaRank} {metadatas : GoMap ContextMetadata} :
    matchMetadatas math metaRank metadatas (withScopes restriction (scopes ++ scopes')) =
      matchMetadatas math metaRank metadatas (withScopes restriction scopes) >>= fun b =>
        if b = true then
          matchMetadatas math (fun i => metaRank (scopes.length + i)) metadatas
            (withScopes restriction scopes')
        else .ok false := by
  have hshift : (scopes'.zipIdx (0 + scopes.length)).allM (fun scope =>
      matchScope math (metaRank scope.2) metadatas scope.1) =
      scopes'.zipIdx.allM (fun scope =>
        matchScope math (metaRank (scopes.length + scope.2)) metadatas scope.1) := by
    rw [List.zipIdx_eq_map_add, allM_map]
    simp
  unfold matchMetadatas withScopes
  dsimp only
  rw [List.zipIdx_append, allM_append, hshift]

theorem Plain.entities_append
    (h : Plain math matchString list entities attributes restriction)
    (h' : Plain math matchString list entities' attributes restriction) :
    Plain math matchString list (entities ++ entities') attributes restriction := by
  refine ⟨h.notNearby, h.notLd, fun eid registration hget metaRank => ?_⟩
  rw [ends_matchingWithFilters h.notLd, matchIds_append, Bool.or_eq_true]
  rintro (hid | hid)
  · exact (ends_matchingWithFilters h.notLd).mp (h.ends eid registration hget metaRank) hid
  · exact (ends_matchingWithFilters h.notLd).mp (h'.ends eid registration hget metaRank) hid

theorem Plain.attributes_append
    (h : Plain math matchString list entities attributes restriction) :
    Plain math matchString list entities (attributes ++ attributes') restriction := by
  refine ⟨h.notNearby, h.notLd, fun eid registration hget metaRank => ?_⟩
  rw [ends_matchingWithFilters h.notLd, matchAttributes_append, Bool.and_eq_true]
  rintro hid ⟨hattr, -⟩
  exact (ends_matchingWithFilters h.notLd).mp (h.ends eid registration hget metaRank) hid hattr

theorem Plain.scopes_append
    (h : Plain math matchString list entities attributes (withScopes restriction scopes))
    (h' : Plain math matchString list entities attributes (withScopes restriction scopes')) :
    Plain math matchString list entities attributes
      (withScopes restriction (scopes ++ scopes')) := by
  have hld : (withScopes restriction (scopes ++ scopes')).restrictionType ≠ "ld" := h.notLd
  refine ⟨List.forall_mem_append.mpr ⟨h.notNearby, h'.notNearby⟩, hld,
    fun eid registration hget metaRank => ?_⟩
  rw [ends_matchingWithFilters hld, matchMetadatas_append]
  intro hid hattr
  obtain ⟨b, hb⟩ := (ends_matchingWithFilters h.notLd).mp
    (h.ends eid registration hget metaRank) hid hattr
  rw [hb, ok_bind]
  cases b with
  | false => exact ends_ok false
  | true =>
    rw [if_pos rfl]
    have hends := h'.ends eid registration hget (fun i => metaRank (scopes.length + i))
    exact (ends_matchingWithFilters h'.notLd).mp hends hid hattr

theorem filterLaws_of_distinct (hdistinct : Distinct list) :
    FilterLaws math matchString list := by
  refine ⟨fun entities entities' attributes restriction h h' => ?_,
    fun entities attributes attributes' restriction h h' => ?_,
    fun entities attributes restriction scopes scopes' h h' => ?_⟩
  · refine ⟨_, _, answers_fitting h, answers_fitting h', ?_⟩
    have hunion : fitting math matchString list (entities ++ entities') attributes
        restriction.scopes = _ ∪ _ := fitting_union (fun _ => fits_entities_append)
    rw [← hunion]
    exact answers_fitting (h.entities_append h')
  · refine ⟨_, _, answers_fitting h, answers_fitting h', ?_⟩
    have hinter : fitting math matchString list entities (attributes ++ attributes')
        restriction.scopes = _ ∩ _ := fitting_inter hdistinct (fun _ => fits_attributes_append)
    rw [← hinter]
    exact answers_fitting h.attributes_append
  · refine ⟨_, _, answers_fitting h, answers_fitting h', ?_⟩
    have hinter : fitting math matchString list entities attributes (scopes ++ scopes') = _ ∩ _ :=
      fitting_inter hdistinct (fun _ => fits_scopes_append)
    exact (hinter ▸ answers_fitting (h.scopes_append h') :)

section Runs

-- the ID and Type that the entry of an entity has once the request is carried out
def named (before : Option EntityRegistration) (entity : EntityId) : String × String :=
  match before with
  | some registration =>
      (registration.id, if entity.type ≠ "" then entity.type else registration.type)
  | none => (entity.id, entity.type)

-- no other entry of the repository has the ID and Type
def Unused (s : Reads.System) (eid : String) (new : String × String) : Prop :=
  ∀ eid' registration, s.repository.get eid' = some registration → eid' ≠ eid →
    (registration.id, registration.type) ≠ new

-- the step gives no entry the ID and Type of another one
def KeepsApart (s : Reads.System) : Reads.Label → Prop
  | .run n _ => ∀ entity registration rest,
      s.running[n]? = some (.updateEntity entity registration :: rest) →
        Unused s entity.id (named (s.repository.get entity.id) entity)
  | .shortenID n => ∀ address eid, s.reading[n]? = some address →
      s.ctxRegistrationList.get eid = some address →
        Unused s eid ((Reads.shortened (s.objects address)).id, (s.objects address).type)
  | _ => True

structure Apart (s : Reads.System) : Prop where
  distinct : Distinct s.repository
  injective : ∀ eid eid' address, s.ctxRegistrationList.get eid = some address →
    s.ctxRegistrationList.get eid' = some address → eid = eid'
  below : ∀ eid address, s.ctxRegistrationList.get eid = some address → address < s.fresh

variable {s t : Reads.System}

theorem apart_init : Apart Reads.System.init := by
  refine ⟨fun eid eid' r r' hget => ?_, by simp [Reads.System.init], by simp [Reads.System.init]⟩
  rw [Reads.get_repository] at hget
  cases hget

theorem Distinct.congr (h : Distinct list) {list' : CtxRegistrationList}
    (hget : ∀ eid, list'.get eid = list.get eid) : Distinct list' := by
  intro eid eid' r r' hr hr'
  rw [hget] at hr hr'
  exact h eid eid' r r' hr hr'

-- one entry changes, and nobody else has what it has afterwards
theorem distinct_of_unused (h : Distinct s.repository) {eid : String} (new : EntityRegistration)
    (hunused : Unused s eid (new.id, new.type))
    (hget : ∀ eid', t.repository.get eid' =
      if eid' = eid then some new else s.repository.get eid') : Distinct t.repository := by
  intro e e' r r' hr hr' hid htype
  rw [hget] at hr hr'
  split_ifs at hr hr' with he he' he'
  · rw [he, he']
  · obtain rfl := Option.some.inj hr
    exact absurd (Prod.ext hid.symm htype.symm) (hunused e' r' hr' he')
  · obtain rfl := Option.some.inj hr'
    exact absurd (Prod.ext hid htype) (hunused e r hr he)
  · exact h e e' r r' hr hr' hid htype

theorem Apart.get_write (h : Apart s) {eid : String} {address : Nat} {new : EntityRegistration}
    (hget : s.ctxRegistrationList.get eid = some address)
    (hlist : t.ctxRegistrationList = s.ctxRegistrationList)
    (hobjects : t.objects = Function.update s.objects address new) (eid' : String) :
    t.repository.get eid' = if eid' = eid then some new else s.repository.get eid' := by
  rw [Reads.get_repository, Reads.get_repository, hlist, hobjects]
  split_ifs with he
  · rw [he, hget, Option.map_some, Function.update_self]
  · cases hget' : s.ctxRegistrationList.get eid' with
    | none => rfl
    | some address' =>
      have hne : address' ≠ address := by
        rintro rfl
        exact he (h.injective eid' eid address' hget' hget)
      rw [Option.map_some, Option.map_some, Function.update_of_ne hne]

theorem get_unwritten {address : Nat} {new : EntityRegistration}
    (hgone : ∀ eid, s.ctxRegistrationList.get eid ≠ some address)
    (hlist : t.ctxRegistrationList = s.ctxRegistrationList)
    (hobjects : t.objects = Function.update s.objects address new) (eid : String) :
    t.repository.get eid = s.repository.get eid := by
  rw [Reads.get_repository, Reads.get_repository, hlist, hobjects]
  cases hget : s.ctxRegistrationList.get eid with
  | none => rfl
  | some address' =>
    have hne : address' ≠ address := by
      rintro rfl
      exact hgone eid hget
    rw [Option.map_some, Option.map_some, Function.update_of_ne hne]

theorem Apart.updateRegistration (h : Apart s) (attrRank : String → Nat) {entity : EntityId}
    (registration : ContextRegistration)
    (hunused : Unused s entity.id (named (s.repository.get entity.id) entity)) :
    Apart (s.updateRegistration attrRank entity registration) := by
  unfold Reads.System.updateRegistration
  cases haddress : s.ctxRegistrationList.get entity.id with
  | some address =>
    rw [Reads.get_repository, haddress] at hunused
    exact ⟨distinct_of_unused h.distinct _ hunused (h.get_write haddress rfl rfl), h.injective,
      h.below⟩
  | none =>
    rw [Reads.get_repository, haddress] at hunused
    refine ⟨distinct_of_unused h.distinct (entityRegistration entity registration) hunused
      (fun eid => ?_), fun eid eid' address hget hget' => ?_, fun eid address hget => ?_⟩
    · rw [Reads.get_repository, Reads.get_repository]
      dsimp only
      rw [GoMap.get_set]
      split_ifs
      · rw [Option.map_some, Function.update_self]
      · cases hget : s.ctxRegistrationList.get eid with
        | none => rfl
        | some address =>
          have hlt := h.below eid address hget
          rw [Option.map_some, Option.map_some, Function.update_of_ne (by omega)]
    · dsimp only at hget hget'
      rw [GoMap.get_set] at hget hget'
      split_ifs at hget hget' with he he' he'
      · rw [he, he']
      · have hlt := h.below eid' address hget'
        have heq := Option.some.inj hget
        omega
      · have hlt := h.below eid address hget
        have heq := Option.some.inj hget'
        omega
      · exact h.injective eid eid' address hget hget'
    · dsimp only at hget ⊢
      rw [GoMap.get_set] at hget
      split_ifs at hget
      · have heq := Option.some.inj hget
        omega
      · have hlt := h.below eid address hget
        omega

theorem Apart.delete (h : Apart s) (eid : String) :
    Apart { s with ctxRegistrationList := s.ctxRegistrationList.delete eid } := by
  have hget {k : String} {address : Nat} (hk : (s.ctxRegistrationList.delete eid).get k =
      some address) : s.ctxRegistrationList.get k = some address := (GoMap.get_of_get_delete hk).2
  refine ⟨fun k k' r r' hr hr' => ?_, fun k k' address hk hk' => h.injective k k' address (hget hk)
    (hget hk'), fun k address hk => h.below k address (hget hk)⟩
  rw [Reads.get_repository, Option.map_eq_some_iff] at hr hr'
  obtain ⟨address, haddress, hobject⟩ := hr
  obtain ⟨address', haddress', hobject'⟩ := hr'
  refine h.distinct k k' r r' ?_ ?_
  · rw [Reads.get_repository, hget haddress, ← hobject]
    rfl
  · rw [Reads.get_repository, hget haddress', ← hobject']
    rfl

theorem Apart.step (h : Apart s) {label : Reads.Label} (hc : KeepsApart s label)
    (ht : Reads.step s label = some t) : Apart t := by
  cases label with
  | send request =>
    rw [← Option.some.inj ht]
    exact ⟨h.distinct, h.injective, h.below⟩
  | run n attrRank =>
    simp only [Reads.step] at ht
    split at ht
    next operation rest hrunning =>
      rw [← Option.some.inj ht]
      have hdone : Apart (Reads.perform attrRank s operation).1 := by
        cases operation with
        | updateEntity entity registration =>
          exact h.updateRegistration attrRank registration (hc entity registration rest hrunning)
        | deleteRegistration eid => exact h
        | deleteEntity eid => exact h.delete eid
      exact ⟨hdone.distinct, hdone.injective, hdone.below⟩
    next => cases ht
  | getRegisteredEntity eid =>
    rw [← Option.some.inj ht]
    exact h
  | getRegisteredLDEntity eid service =>
    simp only [Reads.step] at ht
    split at ht
    all_goals
      rw [← Option.some.inj ht]
      exact ⟨h.distinct, h.injective, h.below⟩
  | shortenID n =>
    simp only [Reads.step] at ht
    split at ht
    next address hheld =>
      rw [← Option.some.inj ht]
      refine ⟨?_, h.injective, h.below⟩
      by_cases hstored : ∃ eid, s.ctxRegistrationList.get eid = some address
      · obtain ⟨eid, hget⟩ := hstored
        exact distinct_of_unused h.distinct _ (hc address eid hheld hget)
          (h.get_write hget rfl rfl)
      · refine h.distinct.congr (get_unwritten ?_ rfl rfl)
        exact fun eid hget => hstored ⟨eid, hget⟩
    next => cases ht
  | query q =>
    rw [← Option.some.inj ht]
    exact h

-- where entries keep their own ID, no two of them can be the same entity
theorem keepsApart_of_leavesEntries (h : Reads.Sound s) {label : Reads.Label}
    (hc : LeavesEntries s label) : KeepsApart s label := by
  cases label with
  | run n attrRank =>
    intro entity registration rest _ eid r hget hne heq
    have hid : r.id = (named (s.repository.get entity.id) entity).1 := congrArg Prod.fst heq
    rw [(h.keyed eid r hget).id] at hid
    refine hne (hid.trans ?_)
    cases hold : s.repository.get entity.id with
    | none => rfl
    | some old => exact (h.keyed entity.id old hold).id
  | shortenID n => exact fun address eid hheld hget => absurd hget (hc address hheld eid)
  | _ => trivial

theorem meets_keepsApart {is : List Reads.Label}
    (hrun : exec Reads.step Reads.System.init is = some s)
    (hmeets : Meets Reads.step LeavesEntries Reads.System.init is) :
    Meets Reads.step KeepsApart Reads.System.init is := by
  have hboth : Meets Reads.step (fun s label => KeepsApart s label ∧ LeavesEntries s label)
      Reads.System.init is ↔ Meets Reads.step LeavesEntries Reads.System.init is :=
    meets_congr (P := Reads.Sound) hrun Reads.sound_init
      (fun _ _ _ hs _ => and_iff_right_of_imp (keepsApart_of_leavesEntries hs))
      (fun _ _ _ hs hc ht => hs.step hc ht)
  exact fun js label r hp hr => (hboth.mpr hmeets js label r hp hr).1

theorem filters_compose (math : FloatMath) (matchString : MatchString) {is : List Reads.Label}
    (hmeets : Meets Reads.step KeepsApart Reads.System.init is) :
    Always Reads.step (fun s => FilterLaws math matchString s.repository) Reads.System.init is :=
  always_of_meets (I := fun _ s => Apart s) hmeets apart_init
    (fun _ _ _ _ _ _ hs hc ht => hs.step hc ht) (fun _ _ hs => filterLaws_of_distinct hs.distinct)

def carWith (eid attrName : String) : Request :=
  .registerContext ⟨[⟨[⟨"Car", false, eid⟩], [⟨attrName, "float", false⟩], [], "http://broker"⟩],
    "", ""⟩

def twoCars : List Reads.Label :=
  [.send (carWith "car1@a" "speed"), .run 0 (fun _ => 0), .send (carWith "car1@b" "fuel"),
    .run 1 (fun _ => 0)]

theorem twoCars_filters_compose :
    ∃ s, exec Reads.step Reads.System.init twoCars = some s ∧
      FilterLaws exampleMath (fun _ _ => false) s.repository := by
  obtain ⟨s, hs⟩ : ∃ s, exec Reads.step Reads.System.init twoCars = some s := ⟨_, rfl⟩
  refine ⟨s, hs, filters_compose exampleMath (fun _ _ => false) (meets_keepsApart hs ?_) twoCars s
    (List.prefix_refl _) hs⟩
  refine meets_of_check (c := fun _ label => !label.isLD) (fun s label _ hc => ?_) (by rfl)
  cases label with
  | getRegisteredLDEntity eid service => cases hc
  | shortenID n => cases hc
  | _ => trivial

def twoReads : List Reads.Label :=
  twoCars ++ [.getRegisteredLDEntity "car1" "a", .getRegisteredLDEntity "car1" "b", .shortenID 0,
    .shortenID 0]

def readCars : Reads.System := (exec Reads.step Reads.System.init twoReads).getD Reads.System.init

theorem readCars_plain (attributes : List String) :
    Plain exampleMath (fun _ _ => false) readCars.repository [⟨"", false, "car1"⟩] attributes
      .zero := by
  refine ⟨by simp [Restriction.zero], by decide, fun eid registration hget metaRank => ?_⟩
  rw [ends_matchingWithFilters (by decide)]
  exact fun _ _ => ends_ok true

def queryCar1 (attributes : List String) : Except Fault (GoMap (List EntityId)) :=
  queryEntities exampleMath (fun _ _ => false) (fun _ => 0) (fun _ _ _ _ => 0) readCars.repository
    [⟨"", false, "car1"⟩] attributes .zero

theorem ldReads_break_filters :
    exec Reads.step Reads.System.init twoReads = some readCars ∧
      ¬ FilterLaws exampleMath (fun _ _ => false) readCars.repository := by
  refine ⟨rfl, fun hlaws => ?_⟩
  obtain ⟨found, found', hspeed, hfuel, hboth⟩ := hlaws.attributes [⟨"", false, "car1"⟩] ["speed"]
    ["fuel"] .zero (readCars_plain _) (readCars_plain _)
  have hlisted (attrName : String) (list : Set EntityId)
      (hquery : (queryCar1 [attrName]).map (fun m => m.get "http://broker") =
        .ok (some [⟨"Car", false, "car1"⟩]))
      (h : Answers exampleMath (fun _ _ => false) readCars.repository [⟨"", false, "car1"⟩]
        [attrName] .zero list) : (⟨"Car", false, "car1"⟩ : EntityId) ∈ list := by
    obtain ⟨entityMap, hmap, hlist⟩ := h (fun _ => 0) (fun _ _ _ _ => 0)
    rw [queryCar1, hmap] at hquery
    exact (hlist _).mpr ⟨_, _, Except.ok.inj hquery, List.mem_singleton_self _⟩
  have hcommon : (⟨"Car", false, "car1"⟩ : EntityId) ∈ found ∩ found' :=
    ⟨hlisted "speed" found (by decide) hspeed, hlisted "fuel" found' (by decide) hfuel⟩
  obtain ⟨entityMap, hmap, hlist⟩ := hboth (fun _ => 0) (fun _ _ _ _ => 0)
  have hempty : (queryCar1 ["speed", "fuel"]).map (fun m => m.entries) = .ok [] := by decide
  rw [queryCar1, show ["speed", "fuel"] = ["speed"] ++ ["fuel"] from rfl, hmap] at hempty
  obtain ⟨url, es, hget, -⟩ := (hlist _).mp hcommon
  have hnone : entityMap.entries = [] := Except.ok.inj hempty
  have hmem := GoMap.mem_entries.mpr hget
  rw [hnone] at hmem
  cases hmem

end Runs

end FogFlow.Discovery.QueryLaws
