import FogFlow.Broker.LdDocument
import FogFlow.Broker.QueryContext
import FogFlow.Broker.Registration
import FogFlow.Discovery.QueryLaws

namespace FogFlow.Broker.LdStore

open Ngsi Loop Execution LdDocument
open QueryContext (Matching Network QueryContextRequest)

-- a broker, and the discovery that it registers its entities with
structure System where
  entities : Entities
  discovery : Discovery.Requests.System

def System.init : System := ⟨∅, .init⟩

inductive Label where
  | upsert (ngsildUpsert : List (GoMap Value)) (orders : Nat → Orders)
  | deleteEntity (eid : String)
  | run (n : Nat) (attrRank : String → Nat)

-- UpdateContextRequest.ReadFromNGSILD
def readEntity (orders : Nat → Orders) (contextElements : List ContextElement)
    (ngsildEntityUpdate : GoMap Value × Nat) : Except Fault (List ContextElement) := do
  let (validEntity, newCtxElement) ←
    ContextElement.readFromNGSILD (orders ngsildEntityUpdate.2) .zero ngsildEntityUpdate.1
  .ok (if validEntity then contextElements ++ [newCtxElement] else contextElements)

def readFromNGSILD (orders : Nat → Orders) (ngsildEntities : List (GoMap Value)) :
    Except Fault (List ContextElement) :=
  ngsildEntities.zipIdx.foldlM (readEntity orders) []

-- discovery answers a request before its goroutine has run
def tell (request : Discovery.Requests.Request) (discovery : Discovery.Requests.System) :
    Discovery.Requests.System :=
  { discovery with
    sent := discovery.sent ++ [request]
    running := discovery.running ++ [Discovery.Requests.operationsOf request] }

def updateContext2LocalSite (myURL : String) (s : System) (ctxElem : ContextElement) : System where
  entities := updateContextElement s.entities ctxElem
  discovery :=
    if hasUpdatedMetadata ctxElem (s.entities.get ctxElem.entity.id) then
      tell (.registerContext (Registration.registerContextElement myURL ctxElem)) s.discovery
    else s.discovery

def deleteEntity (eid : String) (s : System) : System :=
  ⟨s.entities.delete eid, tell (.deleteRegisteredEntity eid) s.discovery⟩

-- a handler that panics while it reads has not updated anything
def step (myURL : String) (s : System) : Label → Option System
  | .upsert ngsildUpsert orders =>
      match readFromNGSILD orders ngsildUpsert with
      | .ok contextElements => some (contextElements.foldl (updateContext2LocalSite myURL) s)
      | .error _ => some s
  | .deleteEntity eid => some (deleteEntity eid s)
  | .run n attrRank =>
      (Discovery.Requests.step s.discovery (.run n attrRank)).map
        (fun discovery => { s with discovery := discovery })

def network (myURL : String) (codec : Codec) (s : System) : Network Unit where
  myURL := fun _ => myURL
  serverAt := fun url => if url = myURL then some () else none
  reached := fun _ => if_pos rfl
  codec := codec
  entities := fun _ => s.entities.map (fun e => ⟨"", e⟩)
  ctxRegistrationList := s.discovery.ctxRegistrationList

def requestById (eid : String) : QueryContextRequest := ⟨[⟨"", false, eid⟩], [], .zero⟩

def matchedCtxElement {β : Type} (net : Network β) (tb : β) (m : Matching)
    (respRank rank : String → Nat) (eid : String) : List ContextElement :=
  QueryContext.queryContext net tb rank
    (QueryContext.handleQueryCtxAvailability m respRank net.ctxRegistrationList (requestById eid))
    (requestById eid)

-- NGSILD_QueryById, where no payload stands for the message that the entity has not been found
def queryById {β : Type} (net : Network β) (tb : β) (m : Matching)
    (respRank rank : String → Nat) (eid : String) : Except Fault (Option (GoMap Value)) :=
  match matchedCtxElement net tb m respRank rank eid with
  | [] => .ok none
  | elements => do
      let payload ← toNGSILDPayload elements true
      let first ← index payload 0
      .ok (some first)

-- what the interface promises: an entity is created, merged into, or removed
abbrev Documents := String → Option Document

def Documents.upsert (docs : Documents) (m : GoMap Value) : Documents :=
  match m.get "id", m.get "type" with
  | some (.string id), some _ =>
      Function.update docs id (some ((docs id).elim m.get (fun old => old.merge m.get)))
  | _, _ => docs

def Documents.apply (docs : Documents) : Label → Documents
  | .upsert ngsildUpsert _ => ngsildUpsert.foldl Documents.upsert docs
  | .deleteEntity eid => Function.update docs eid none
  | .run _ _ => docs

def documents (labels : List Label) : Documents := labels.foldl Documents.apply (fun _ => none)

-- an entity without id or type is left out by the broker
def Acceptable (rawMessage : String → Json) : Label → Prop
  | .upsert ngsildUpsert _ => ∀ m ∈ ngsildUpsert,
      (∃ id type location, Described rawMessage id type location m) ∨
        m.get "id" = none ∨ m.get "type" = none
  | _ => True

section Store

variable {rawMessage : String → Json} {entities : Entities} {docs : Documents}
  {orders : Nat → Orders} {m : GoMap Value} {e : ContextElement}

def Represents (entities : Entities) (docs : Documents) : Prop :=
  ∀ eid, Option.Rel (fun e doc => ∃ type location, Stands eid type location doc e)
    (entities.get eid) (docs eid)

theorem represents_init : Represents ∅ (fun _ => none) := fun _ => .none

theorem Represents.get_none (h : Represents entities docs) {eid : String}
    (hdoc : docs eid = none) : entities.get eid = none := by
  have hrel := h eid
  rw [hdoc] at hrel
  cases hstored : entities.get eid with
  | none => rfl
  | some stored =>
    rw [hstored] at hrel
    cases hrel

theorem Represents.get_some (h : Represents entities docs) {eid : String} {doc : Document}
    (hdoc : docs eid = some doc) :
    ∃ stored type location, entities.get eid = some stored ∧
      Stands eid type location doc stored := by
  have hrel := h eid
  rw [hdoc] at hrel
  cases hstored : entities.get eid with
  | none =>
    rw [hstored] at hrel
    cases hrel
  | some stored =>
    rw [hstored] at hrel
    cases hrel with
    | some hstands =>
      obtain ⟨type, location, hstands⟩ := hstands
      exact ⟨stored, type, location, rfl, hstands⟩

theorem represents_upsert {id type : String} {location : Option Point}
    (h : Represents entities docs) (hm : Described rawMessage id type location m)
    (he : Stands id type location m.get e) :
    Represents (updateContextElement entities e) (docs.upsert m) := by
  intro eid
  have hupsert : docs.upsert m =
      Function.update docs id (some ((docs id).elim m.get (fun old => old.merge m.get))) := by
    simp only [Documents.upsert, hm.id, hm.type]
  rw [get_updateContextElement, he.id.1, hupsert]
  by_cases heid : eid = id
  · subst heid
    rw [if_pos rfl, Function.update_self]
    cases hdoc : docs eid with
    | none =>
      rw [h.get_none hdoc]
      exact .some ⟨type, location, he⟩
    | some doc =>
      obtain ⟨cur, curType, curLocation, hcur, hstands⟩ := h.get_some hdoc
      rw [hcur]
      exact .some ⟨curType, _, hstands.merge he⟩
  · rw [if_neg heid, Function.update_of_ne heid]
    exact h eid

theorem represents_delete (h : Represents entities docs) (eid : String) :
    Represents (entities.delete eid) (Function.update docs eid none) := by
  intro k
  rw [GoMap.get_delete]
  by_cases hk : k = eid
  · rw [if_pos hk, hk, Function.update_self]
    exact .none
  · rw [if_neg hk, Function.update_of_ne hk]
    exact h k

theorem upsert_skipped (h : m.get "id" = none ∨ m.get "type" = none) : docs.upsert m = docs := by
  unfold Documents.upsert
  rcases h with h | h
  · rw [h]
  · rw [h]
    split
    · contradiction
    · rfl

-- the updates of the elements do to the broker what the upserts of the entities promise
def Updates (ngsildUpsert : List (GoMap Value)) (elements : List ContextElement) : Prop :=
  ∀ entities docs, Represents entities docs →
    Represents (elements.foldl updateContextElement entities)
      (ngsildUpsert.foldl Documents.upsert docs)

theorem updates_read {ngsildUpsert : List (GoMap Value)}
    (haccept : Acceptable rawMessage (.upsert ngsildUpsert orders)) :
    ∃ elements, readFromNGSILD orders ngsildUpsert = .ok elements ∧
      Updates ngsildUpsert elements := by
  refine foldlM_zipIdx_total (I := Updates) (fun _ _ h => h) ?_
  intro done m rest i elements hsplit hdone
  have hm := haccept m (by simp [hsplit])
  rcases hm with ⟨id, type, location, hm⟩ | hskipped
  · obtain ⟨e, he, hstands⟩ := readFromNGSILD_described (orders i) hm
    refine ⟨elements ++ [e], ?_, fun entities docs h => ?_⟩
    · simp only [readEntity, he, ok_bind, if_true]
    · rw [List.foldl_append, List.foldl_append]
      exact represents_upsert (hdone entities docs h) hm hstands
  · have hnone : ((m.get "id").isNone || (m.get "type").isNone) = true := by
      rcases hskipped with h | h <;> simp [h]
    refine ⟨elements, ?_, fun entities docs h => ?_⟩
    · simp only [readEntity, ContextElement.readFromNGSILD, hnone, if_true, ok_bind,
        Bool.false_eq_true, if_false]
    · rw [List.foldl_append, List.foldl_cons, List.foldl_nil, upsert_skipped hskipped]
      exact hdone entities docs h

end Store

section Run

variable {rawMessage : String → Json} {myURL : String} {s t : System}
  {ctxElem : ContextElement} {contextElements : List ContextElement}

theorem entities_updateContext2LocalSite (myURL : String) (s : System)
    (contextElements : List ContextElement) :
    (contextElements.foldl (updateContext2LocalSite myURL) s).entities =
      contextElements.foldl updateContextElement s.entities := by
  induction contextElements generalizing s with
  | nil => rfl
  | cons e contextElements ih => exact ih (updateContext2LocalSite myURL s e)

-- what a handler keeps with each element it keeps with its request, read or not
theorem upsert_induction {P : System → Prop} {ngsildUpsert : List (GoMap Value)}
    {orders : Nat → Orders} (hstep : step myURL s (.upsert ngsildUpsert orders) = some t)
    (h : P s) (hupdate : ∀ s ctxElem, P s → P (updateContext2LocalSite myURL s ctxElem)) :
    P t := by
  unfold step at hstep
  dsimp only at hstep
  split at hstep
  · rw [← Option.some.inj hstep]
    generalize ‹List ContextElement› = contextElements
    clear hstep
    induction contextElements generalizing s with
    | nil => exact h
    | cons e contextElements ih => exact ih (hupdate s e h)
  · rw [← Option.some.inj hstep]
    exact h

theorem step_upsert {ngsildUpsert : List (GoMap Value)} {orders : Nat → Orders}
    (haccept : Acceptable rawMessage (.upsert ngsildUpsert orders))
    (hstep : step myURL s (.upsert ngsildUpsert orders) = some t) :
    ∃ contextElements, t = contextElements.foldl (updateContext2LocalSite myURL) s ∧
      Updates ngsildUpsert contextElements := by
  obtain ⟨contextElements, hread, hupdates⟩ := updates_read haccept
  simp only [step, hread, Option.some.injEq] at hstep
  exact ⟨contextElements, hstep.symm, hupdates⟩

theorem step_run {n : Nat} {attrRank : String → Nat}
    (hstep : step myURL s (.run n attrRank) = some t) :
    t.entities = s.entities ∧ Discovery.Requests.step s.discovery (.run n attrRank) =
      some t.discovery := by
  obtain ⟨discovery, hdiscovery, rfl⟩ := Option.map_eq_some_iff.mp hstep
  exact ⟨rfl, hdiscovery⟩

theorem run_cases {d d' : Discovery.Requests.System} {n : Nat} {attrRank : String → Nat}
    (h : Discovery.Requests.step d (.run n attrRank) = some d') :
    ∃ operation rest, d.running[n]? = some (operation :: rest) ∧ d' = { d with
      ctxRegistrationList :=
        (Discovery.Requests.perform attrRank d.ctxRegistrationList operation).1
      running := d.running.set n
        ((Discovery.Requests.perform attrRank d.ctxRegistrationList operation).2 ++ rest) } := by
  unfold Discovery.Requests.step at h
  dsimp only at h
  split at h
  · exact ⟨_, _, ‹_›, (Option.some.inj h).symm⟩
  · cases h

theorem represents_step {docs : Documents} {label : Label} (haccept : Acceptable rawMessage label)
    (h : Represents s.entities docs) (hstep : step myURL s label = some t) :
    Represents t.entities (docs.apply label) := by
  cases label with
  | upsert ngsildUpsert orders =>
    obtain ⟨contextElements, rfl, hupdates⟩ := step_upsert haccept hstep
    rw [entities_updateContext2LocalSite]
    exact hupdates s.entities docs h
  | deleteEntity eid =>
    obtain rfl := Option.some.inj hstep
    exact represents_delete h eid
  | run n attrRank =>
    rw [(step_run hstep).1]
    exact h

theorem represents_exec {labels : List Label}
    (haccept : ∀ label ∈ labels, Acceptable rawMessage label)
    (hrun : exec (step myURL) .init labels = some s) :
    Represents s.entities (documents labels) := by
  refine exec_induction (motive := fun done r => Represents r.entities (documents done)) hrun
    represents_init ?_
  intro done label r t hp _ hr hstep
  have hlabel := haccept label (hp.subset (by simp))
  rw [documents, List.foldl_append]
  exact represents_step hlabel hr hstep

-- discovery knows each entity under its own id, and as one of this broker
structure Provided (myURL : String) (d : Discovery.Requests.System) : Prop where
  listed : ∀ eid r, d.ctxRegistrationList.get eid = some r →
    r.id = eid ∧ r.providingApplication = myURL
  running : ∀ operations ∈ d.running, ∀ entity registration,
    .updateEntity entity registration ∈ operations → registration.providingApplication = myURL

theorem provided_init : Provided myURL .init :=
  ⟨fun eid r hr => by simp [Discovery.Requests.System.init] at hr,
    fun operations hmem => absurd hmem List.not_mem_nil⟩

theorem provided_tell {d : Discovery.Requests.System} (h : Provided myURL d)
    {request : Discovery.Requests.Request}
    (hrequest : ∀ entity registration,
      .updateEntity entity registration ∈ Discovery.Requests.operationsOf request →
        registration.providingApplication = myURL) : Provided myURL (tell request d) := by
  refine ⟨h.listed, fun operations hmem => ?_⟩
  rcases List.mem_append.mp hmem with hold | hnew
  · exact h.running operations hold
  · rw [List.mem_singleton.mp hnew]
    exact hrequest

theorem provided_updateContext2LocalSite (h : Provided myURL s.discovery) (ctxElem : ContextElement) :
    Provided myURL (updateContext2LocalSite myURL s ctxElem).discovery := by
  unfold updateContext2LocalSite
  dsimp only
  split_ifs
  · refine provided_tell h (fun entity registration hmem => ?_)
    obtain ⟨-, rfl⟩ : entity = ctxElem.entity ∧
        registration = Registration.registration myURL ctxElem := by
      simpa [Discovery.Requests.operationsOf, Registration.registerContextElement,
        Registration.registration] using hmem
    rfl
  · exact h

theorem provided_perform {d : Discovery.Requests.System} (h : Provided myURL d) {n : Nat}
    {attrRank : String → Nat} {d' : Discovery.Requests.System}
    (hstep : Discovery.Requests.step d (.run n attrRank) = some d') : Provided myURL d' := by
  obtain ⟨operation, rest, hg, rfl⟩ := run_cases hstep
  have hmem := List.mem_of_getElem? hg
  constructor
  · intro eid r hr
    cases operation with
    | updateEntity entity registration =>
      have hprovider := h.running _ hmem entity registration List.mem_cons_self
      rw [Discovery.Requests.perform, Discovery.get_updateRegistrationInMemory] at hr
      split_ifs at hr with heid
      · subst heid
        cases hold : d.ctxRegistrationList.get entity.id with
        | none =>
          rw [hold] at hr
          rw [← Option.some.inj hr]
          exact ⟨rfl, hprovider⟩
        | some old =>
          obtain ⟨hid, hurl⟩ := h.listed _ old hold
          rw [hold] at hr
          rw [← Option.some.inj hr]
          refine ⟨hid, ?_⟩
          change (if registration.providingApplication ≠ "" then
            registration.providingApplication else old.providingApplication) = myURL
          rw [hprovider, hurl, ite_self]
      · exact h.listed eid r hr
    | deleteRegistration k => exact h.listed eid r hr
    | deleteEntity k =>
      rw [Discovery.Requests.perform, GoMap.get_delete] at hr
      split_ifs at hr
      exact h.listed eid r hr
  · intro operations hops entity registration hupdate
    rcases List.mem_or_eq_of_mem_set hops with hold | rfl
    · exact h.running operations hold entity registration hupdate
    · refine h.running _ hmem entity registration (List.mem_cons_of_mem _ ?_)
      rcases List.mem_append.mp hupdate with hnext | hrest
      · cases operation with
        | updateEntity _ _ => cases hnext
        | deleteRegistration k =>
          simp only [Discovery.Requests.perform] at hnext
          split_ifs at hnext <;> simp at hnext
        | deleteEntity _ => cases hnext
      · exact hrest

theorem provided_step {label : Label} (h : Provided myURL s.discovery)
    (hstep : step myURL s label = some t) : Provided myURL t.discovery := by
  cases label with
  | upsert ngsildUpsert orders =>
    exact upsert_induction (P := fun s => Provided myURL s.discovery) hstep h
      (fun _ ctxElem h => provided_updateContext2LocalSite h ctxElem)
  | deleteEntity eid =>
    obtain rfl := Option.some.inj hstep
    refine provided_tell h (fun entity registration hmem => ?_)
    simp [Discovery.Requests.operationsOf] at hmem
  | run n attrRank => exact provided_perform h (step_run hstep).2

theorem provided_exec {labels : List Label} (hrun : exec (step myURL) .init labels = some s) :
    Provided myURL s.discovery :=
  exec_invariant (P := fun s => Provided myURL s.discovery) hrun provided_init
    (fun _ _ _ h hstep => provided_step h hstep)

end Run

section Query

variable {myURL : String} {s : System} {m : Matching} {respRank rank : String → Nat}
  {codec : Codec} {eid : String}

theorem matching_requestById (metaRank : Discovery.MetaRank) (r : EntityRegistration)
    (eid : String) :
    Discovery.matchingWithFilters m.math m.matchString metaRank r (requestById eid).entities
      (requestById eid).attributes (requestById eid).restriction = .ok (eid == r.id) := by
  have hid : Discovery.matchIds m.matchString r (requestById eid).entities = (eid == r.id) := by
    simp only [Discovery.matchIds, requestById, List.any_cons, List.any_nil, Bool.or_false]
    rfl
  rw [Discovery.matchingWithFilters, hid]
  cases eid == r.id <;> rfl

-- the request finds the entities registered with this id, and no other
theorem candidates_requestById (m : Matching) (list : Discovery.CtxRegistrationList)
    (eid : String) : ∃ cs, m.candidates list (requestById eid) = .ok cs ∧
      (∀ c ∈ cs, ∃ k r, list.get k = some r ∧ r.id = eid ∧ Discovery.Describes c r) ∧
      ∀ k r, list.get k = some r → r.id = eid → cs ≠ [] := by
  have hplain : Discovery.QueryLaws.Plain m.math m.matchString list (requestById eid).entities
      (requestById eid).attributes (requestById eid).restriction :=
    ⟨by simp [requestById, Restriction.zero], by simp [requestById, Restriction.zero],
      fun _ r _ metaRank => ⟨_, matching_requestById metaRank r eid⟩⟩
  obtain ⟨cs, hcs⟩ := Discovery.QueryLaws.candidatesOf_total hplain m.rank m.metaRank
  refine ⟨cs, ?_, fun c hc => ?_, fun k r hget hid hnil => ?_⟩
  · rw [Matching.candidates, Discovery.QueryLaws.getNearbyFilter_eq_none hplain.notNearby, ok_bind,
      hcs]
    rfl
  · obtain ⟨k, r, hget, hmatch, hdescribes⟩ := Discovery.matching_of_mem_candidatesOf hcs hc
    rw [matching_requestById, Except.ok.injEq, beq_iff_eq] at hmatch
    exact ⟨k, r, hget, hmatch.symm, hdescribes⟩
  · have hmatch : Discovery.matchingWithFilters m.math m.matchString (m.metaRank k) r
        (requestById eid).entities (requestById eid).attributes (requestById eid).restriction =
          .ok true := by
      rw [matching_requestById, hid, beq_self_eq_true]
    obtain ⟨c, hc, -⟩ := Discovery.mem_candidatesOf_of_matching hcs hget hmatch
    rw [hnil] at hc
    cases hc

-- each of the entities found is the one that the broker itself has under the id
theorem matched_own (h : Provided myURL s.discovery) (codec : Codec) (m : Matching)
    (respRank rank : String → Nat) (eid : String) :
    (∀ e ∈ matchedCtxElement (network myURL codec s) () m respRank rank eid,
      ∃ stored, s.entities.get eid = some stored ∧ e = stored.cloneWithSelectedAttributes []) ∧
    (matchedCtxElement (network myURL codec s) () m respRank rank eid ≠ [] ↔
      s.entities.get eid ≠ none ∧ s.discovery.ctxRegistrationList.get eid ≠ none) := by
  obtain ⟨cs, hcs, hfound, hnonempty⟩ :=
    candidates_requestById m s.discovery.ctxRegistrationList eid
  have hprovided : ∀ c ∈ cs, QueryContext.provided (network myURL codec s) ()
      (requestById eid).attributes c.providerURL ⟨c.type, false, c.id⟩ =
        ((s.entities.get eid).map (fun e => e.cloneWithSelectedAttributes [])).toList := by
    intro c hc
    obtain ⟨k, r, hget, hid, hdescribes⟩ := hfound c hc
    have hurl : c.providerURL = (network myURL codec s).myURL () :=
      hdescribes.provider.trans (h.listed k r hget).2
    rw [QueryContext.provided, if_pos hurl, hdescribes.id, hid]
    change ((((s.entities.map (fun e => (⟨"", e⟩ : PostedElement))).get eid).map
      (PostedElement.selected []))).toList = _
    rw [GoMap.get_map, Option.map_map]
    rfl
  have hperm : (matchedCtxElement (network myURL codec s) () m respRank rank eid).Perm
      (cs.flatMap (fun _ =>
        ((s.entities.get eid).map (fun e => e.cloneWithSelectedAttributes [])).toList)) := by
    rw [← List.flatMap_congr hprovided]
    exact QueryContext.perm_queryContext hcs respRank rank
  constructor
  · intro e he
    obtain ⟨c, -, hmem⟩ := List.mem_flatMap.mp (hperm.mem_iff.mp he)
    obtain ⟨stored, hstored, rfl⟩ := Option.map_eq_some_iff.mp (Option.mem_toList.mp hmem)
    exact ⟨stored, hstored, rfl⟩
  · have hnil : matchedCtxElement (network myURL codec s) () m respRank rank eid = [] ↔
        ∀ c ∈ cs, s.entities.get eid = none := by
      rw [← List.isEmpty_iff, hperm.isEmpty_eq, List.isEmpty_iff, List.flatMap_eq_nil_iff]
      exact forall₂_congr (fun c _ => by cases s.entities.get eid <;> simp)
    rw [Ne, hnil]
    constructor
    · intro hsome
      push Not at hsome
      obtain ⟨c, hc, hstored⟩ := hsome
      obtain ⟨k, r, hget, hid, -⟩ := hfound c hc
      obtain rfl : k = eid := (h.listed k r hget).1.symm.trans hid
      exact ⟨hstored, by simp [hget]⟩
    · rintro ⟨hstored, hlisted⟩ hall
      obtain ⟨r, hget⟩ := Option.ne_none_iff_exists'.mp hlisted
      obtain ⟨c, hc⟩ := List.exists_mem_of_ne_nil cs
        (hnonempty eid r hget (h.listed eid r hget).1)
      exact hstored (hall c hc)

theorem payload_replicate {e : ContextElement} {payload : GoMap Value}
    (h : toElementLD true e = .ok payload) (n : Nat) :
    toNGSILDPayload (List.replicate n e) true = .ok (List.replicate n payload) := by
  unfold toNGSILDPayload
  induction n with
  | zero => rfl
  | succ n ih =>
    rw [List.replicate_succ, List.mapM_cons, h, ih]
    rfl

theorem queryById_of_none (h : Provided myURL s.discovery) (hnone : s.entities.get eid = none)
    (codec : Codec) (m : Matching) (respRank rank : String → Nat) :
    queryById (network myURL codec s) () m respRank rank eid = .ok none := by
  have hnil : matchedCtxElement (network myURL codec s) () m respRank rank eid = [] := by
    by_contra hne
    exact ((matched_own h codec m respRank rank eid).2.mp hne).1 hnone
  rw [queryById, hnil]

theorem queryById_eq {type : String} {location : Option Point} {doc : Document}
    {stored : ContextElement} (h : Provided myURL s.discovery)
    (hstored : s.entities.get eid = some stored) (hstands : Stands eid type location doc stored)
    (codec : Codec) (m : Matching) (respRank rank : String → Nat) :
    ∃ payload, (∀ k, payload.get k = doc.shown k) ∧
      queryById (network myURL codec s) () m respRank rank eid =
        .ok (if s.discovery.ctxRegistrationList.get eid = none then none else some payload) := by
  obtain ⟨payload, hpayload, hshown⟩ := hstands.encoded
  obtain ⟨hall, hsome⟩ := matched_own h codec m respRank rank eid
  have hreplicate := List.eq_replicate_of_mem (fun e he => by
    obtain ⟨stored', hstored', rfl⟩ := hall e he
    obtain rfl := Option.some.inj (hstored.symm.trans hstored')
    rfl : ∀ e ∈ matchedCtxElement (network myURL codec s) () m respRank rank eid,
      e = stored.cloneWithSelectedAttributes [])
  refine ⟨payload, hshown, ?_⟩
  unfold queryById
  split
  case h_1 hnil =>
    have hunlisted : s.discovery.ctxRegistrationList.get eid = none := by
      by_contra hlisted
      exact hsome.mpr ⟨by simp [hstored], hlisted⟩ hnil
    rw [if_pos hunlisted]
  case h_2 hne =>
    have hlisted := (hsome.mp (fun hnil => hne hnil)).2
    rw [if_neg hlisted, hreplicate]
    have hlength : ∃ n, (matchedCtxElement (network myURL codec s) () m respRank rank
        eid).length = n + 1 :=
      Nat.exists_eq_succ_of_ne_zero (fun hzero => hne (List.length_eq_zero_iff.mp hzero))
    obtain ⟨n, hn⟩ := hlength
    rw [hn, payload_replicate (show toElementLD true (stored.cloneWithSelectedAttributes []) =
      .ok payload from hpayload)]
    rfl

end Query

section InTurn

open Discovery.Requests (OnCourse effects todo operationsOf)

variable {myURL : String} {s t : System}

-- discovery handles the requests that name an entity in the order in which they were sent
def InTurn (s : System) : Label → Prop
  | .run n attrRank => Discovery.Requests.InTurn s.discovery (.run n attrRank)
  | _ => True

-- the last request that names a stored entity registers it
structure Followed (s : System) : Prop where
  course : OnCourse s.discovery
  stored : ∀ eid, s.entities.get eid ≠ none →
    (effects none (todo eid (s.discovery.sent.flatMap operationsOf))).isSome

theorem followed_init : Followed .init :=
  ⟨Discovery.Requests.onCourse_init, fun _ hstored => absurd rfl hstored⟩

theorem effects_tell (d : Discovery.Requests.System) (request : Discovery.Requests.Request)
    (eid : String) :
    effects none (todo eid ((tell request d).sent.flatMap operationsOf)) =
      effects (effects none (todo eid (d.sent.flatMap operationsOf)))
        (todo eid (operationsOf request)) := by
  rw [tell, List.flatMap_append, List.flatMap_singleton, Discovery.Requests.todo_append,
    Discovery.Requests.effects_append]

theorem followed_updateContext2LocalSite (h : Followed s) (ctxElem : ContextElement) :
    Followed (updateContext2LocalSite myURL s ctxElem) := by
  have hoperations : operationsOf
      (.registerContext (Registration.registerContextElement myURL ctxElem)) =
        [.updateEntity ctxElem.entity (Registration.registration myURL ctxElem)] := rfl
  have hentities (eid : String) (hne : eid ≠ ctxElem.entity.id) :
      (updateContextElement s.entities ctxElem).get eid = s.entities.get eid := by
    rw [get_updateContextElement, if_neg hne]
  cases hupdated : hasUpdatedMetadata ctxElem (s.entities.get ctxElem.entity.id) with
  | true =>
    have hdiscovery : (updateContext2LocalSite myURL s ctxElem).discovery =
        tell (.registerContext (Registration.registerContextElement myURL ctxElem))
          s.discovery := by
      simp only [updateContext2LocalSite, hupdated, if_true]
    refine ⟨by rw [hdiscovery]; exact Discovery.Requests.onCourse_send h.course _, ?_⟩
    intro eid hstored
    rw [hdiscovery, effects_tell, hoperations]
    by_cases heid : ctxElem.entity.id = eid
    · subst heid
      have hself := Discovery.Requests.todo_self
        (.updateEntity ctxElem.entity (Registration.registration myURL ctxElem))
      rw [Discovery.Requests.Operation.entity] at hself
      rw [hself]
      rfl
    · have hother : todo eid [.updateEntity ctxElem.entity
          (Registration.registration myURL ctxElem)] = [] := Discovery.Requests.todo_of_ne heid
      rw [hother]
      exact h.stored eid (by rwa [← hentities eid (Ne.symm heid)])
  | false =>
    have hdiscovery : (updateContext2LocalSite myURL s ctxElem).discovery = s.discovery := by
      simp only [updateContext2LocalSite, hupdated, Bool.false_eq_true, if_false]
    refine ⟨by rw [hdiscovery]; exact h.course, fun eid hstored => ?_⟩
    rw [hdiscovery]
    refine h.stored eid ?_
    by_cases heid : eid = ctxElem.entity.id
    · -- an entity that is not stored yet is always registered
      intro hnone
      rw [heid] at hnone
      rw [hnone] at hupdated
      cases hupdated
    · rwa [← hentities eid heid]

theorem followed_delete (h : Followed s) (eid : String) : Followed (deleteEntity eid s) := by
  refine ⟨Discovery.Requests.onCourse_send h.course _, fun k hstored => ?_⟩
  have hne : eid ≠ k := by
    rintro rfl
    exact hstored (by rw [deleteEntity, GoMap.get_delete, if_pos rfl])
  rw [deleteEntity, effects_tell]
  have hnone : todo k [.deleteRegistration eid] = [] := Discovery.Requests.todo_of_ne hne
  rw [operationsOf, hnone]
  refine h.stored k ?_
  rwa [deleteEntity, GoMap.get_delete, if_neg (Ne.symm hne)] at hstored

theorem followed_step {label : Label} (h : Followed s) (hturn : InTurn s label)
    (hstep : step myURL s label = some t) : Followed t := by
  cases label with
  | upsert ngsildUpsert orders =>
    exact upsert_induction hstep h (fun _ ctxElem h => followed_updateContext2LocalSite h ctxElem)
  | deleteEntity eid =>
    obtain rfl := Option.some.inj hstep
    exact followed_delete h eid
  | run n attrRank =>
    obtain ⟨hentities, hdiscovery⟩ := step_run hstep
    obtain ⟨operation, rest, hg, hd⟩ := run_cases hdiscovery
    refine ⟨?_, fun eid hstored => ?_⟩
    · rw [hd]
      exact Discovery.Requests.onCourse_run h.course hg hturn
    · rw [hd]
      exact h.stored eid (by rwa [← hentities])

theorem followed_exec {labels : List Label} (hrun : exec (step myURL) .init labels = some s)
    (hturn : Meets (step myURL) InTurn .init labels) : Followed s :=
  exec_induction_of_meets (motive := fun _ s => Followed s) hturn hrun followed_init
    (fun _ _ _ _ _ _ h hc hstep => followed_step h hc hstep)

-- with nothing left to do, discovery lists every entity that is stored
theorem Followed.listed (h : Followed s)
    (hidle : ∀ operations ∈ s.discovery.running, operations = []) {eid : String}
    (hstored : s.entities.get eid ≠ none) : s.discovery.ctxRegistrationList.get eid ≠ none := by
  have hflatten : s.discovery.running.flatten = [] := List.flatten_eq_nil_iff.mpr hidle
  have hcourse := h.course.course eid
  rw [hflatten] at hcourse
  obtain ⟨r, hr⟩ := Option.isSome_iff_exists.mp (h.stored eid hstored)
  rw [hr] at hcourse
  intro hnone
  have heffects : effects (s.discovery.ctxRegistrationList.get eid) (todo eid []) = none := hnone
  rw [heffects] at hcourse
  cases hcourse

def postedCar (speed : ℚ) : GoMap Value :=
  (((∅ : GoMap Value).set "id" (.string "urn:Car:1")).set "type" (.string "Car")).set "speed"
    (ofMap (typed "Property" "value" (.number speed)))

theorem get_postedCar (speed : ℚ) (k : String) :
    (postedCar speed).get k =
      if k = "speed" then some (ofMap (typed "Property" "value" (.number speed)))
      else if k = "type" then some (.string "Car")
      else if k = "id" then some (.string "urn:Car:1") else none := by
  simp only [postedCar, GoMap.get_set, GoMap.get_empty]

theorem described_postedCar (rawMessage : String → Json) (speed : ℚ) :
    Described rawMessage "urn:Car:1" "Car" none (postedCar speed) := by
  refine ⟨rfl, rfl, rfl, fun k hk hlower => ?_, fun k v hv hfree => ?_⟩
  · rw [get_postedCar] at hk
    split_ifs at hk with hspeed htype hid
    · rw [hspeed] at hlower
      exact absurd hlower (by decide)
    · rw [htype]
      decide
    · rw [hid]
      decide
    · exact absurd rfl hk
  · rw [get_postedCar] at hv
    split_ifs at hv with hspeed htype hid
    · refine ⟨by rw [hspeed]; decide, [typed "Property" "value" (.number speed)], ?_, hv⟩
      intro property hproperty
      rw [List.mem_singleton.mp hproperty]
      refine .inl ⟨rfl, ⟨.number speed, rfl, ?_⟩, fun k' hk' => ?_⟩
      · intro hnull
        simp [received, marshal, unmarshal] at hnull
      · rw [get_typed] at hk'
        split_ifs at hk' with hvalue htype
        · exact .inr (.inl hvalue)
        · exact .inl htype
        · exact absurd rfl hk'
    · rw [htype] at hfree
      exact absurd (by decide) hfree
    · rw [hid] at hfree
      exact absurd (by decide) hfree

def anyOrders : Nat → Orders := fun _ => ⟨String.length, fun _ _ => String.length⟩

-- the car is removed and created again before discovery has done anything
def carAgain : List Label :=
  [.upsert [postedCar 30] anyOrders, .deleteEntity "urn:Car:1", .upsert [postedCar 50] anyOrders]

def discoveryDone : List Label :=
  [.run 0 String.length, .run 1 String.length, .run 1 String.length, .run 2 String.length]

theorem acceptable_carAgain (rawMessage : String → Json) :
    ∀ label ∈ carAgain ++ discoveryDone, Acceptable rawMessage label := by
  have hcar (speed : ℚ) : Acceptable rawMessage (.upsert [postedCar speed] anyOrders) := by
    intro m hm
    rw [List.mem_singleton.mp hm]
    exact .inl ⟨_, _, _, described_postedCar rawMessage speed⟩
  simp only [carAgain, discoveryDone, List.cons_append, List.nil_append, List.forall_mem_cons]
  exact ⟨hcar 30, trivial, hcar 50, trivial, trivial, trivial, trivial, List.forall_mem_nil _⟩

def earlierDone (s : System) : Label → Bool
  | .run n attrRank => Discovery.Requests.earlierDone s.discovery (.run n attrRank)
  | _ => true

theorem inTurn_of_earlierDone {label : Label} (h : earlierDone s label = true) :
    InTurn s label := by
  cases label with
  | run n attrRank =>
    have hdone : Discovery.Requests.earlierDone s.discovery (.run n attrRank) = true := h
    exact Discovery.Requests.inTurn_of_earlierDone hdone
  | _ => trivial

end InTurn

section Answers

variable {myURL : String} {s : System} {rawMessage : String → Json} {labels : List Label}

end Answers

end FogFlow.Broker.LdStore
