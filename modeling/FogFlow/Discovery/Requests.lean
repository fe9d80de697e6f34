import FogFlow.Discovery.Repository
import FogFlow.Library.Execution
import FogFlow.Library.Pool

namespace FogFlow.Discovery.Requests

open Ngsi Execution

inductive Request where
  | registerContext (registerCtxReq : RegisterContextRequest)
  | deleteRegisteredEntity (eid : String)

-- what a goroutine does to the repository under its lock, one operation for each section
inductive Operation where
  | updateEntity (entity : EntityId) (registration : ContextRegistration)
  | deleteRegistration (eid : String)
  | deleteEntity (eid : String)

def Operation.entity : Operation → String
  | .updateEntity entity _ => entity.id
  | .deleteRegistration eid | .deleteEntity eid => eid

def operationsOf : Request → List Operation
  | .registerContext registerCtxReq =>
      registerCtxReq.contextRegistrations.flatMap (fun registration =>
        registration.entityIdList.map (fun entity => .updateEntity entity registration))
  | .deleteRegisteredEntity eid => [.deleteRegistration eid]

-- deleteRegistration looks the entity up, notifies, and then deletes what it has found
def perform (attrRank : String → Nat) (list : CtxRegistrationList) :
    Operation → CtxRegistrationList × List Operation
  | .updateEntity entity registration =>
      (updateRegistrationInMemory attrRank list entity registration, [])
  | .deleteRegistration eid => (list, if (list.get eid).isSome then [.deleteEntity eid] else [])
  | .deleteEntity eid => (list.delete eid, [])

-- the n-th goroutine works for the n-th request
structure System where
  ctxRegistrationList : CtxRegistrationList
  sent : List Request
  running : List (List Operation)

def System.init : System := ⟨∅, [], []⟩

inductive Label where
  | send (request : Request)
  | run (n : Nat) (attrRank : String → Nat)

-- the handler answers as soon as its goroutine is started
def step (s : System) : Label → Option System
  | .send request => some { s with
      sent := s.sent ++ [request]
      running := s.running ++ [operationsOf request] }
  | .run n attrRank =>
      match s.running[n]? with
      | some (operation :: rest) =>
          let done := perform attrRank s.ctxRegistrationList operation
          some { s with
            ctxRegistrationList := done.1
            running := s.running.set n (done.2 ++ rest) }
      | _ => none

def applyRequest (attrRank : Nat → String → Nat) (list : CtxRegistrationList) :
    Request → CtxRegistrationList
  | .registerContext registerCtxReq => updateRegistration attrRank list registerCtxReq
  | .deleteRegisteredEntity eid => if (list.get eid).isSome then list.delete eid else list

def applyAll (attrRank : Nat → Nat → String → Nat) (sent : List Request) : CtxRegistrationList :=
  sent.zipIdx.foldl (fun list request => applyRequest (attrRank request.2) list request.1) ∅

def Request.names (eid : String) (request : Request) : Bool :=
  (operationsOf request).any (fun operation => operation.entity == eid)

def lastNaming (eid : String) (sent : List Request) : Option Request :=
  (sent.filter (Request.names eid)).getLast?

-- two registrations with the same content, whatever the order of their tables
structure Same (r r' : EntityRegistration) : Prop where
  id : r.id = r'.id
  type : r.type = r'.type
  attributes : ∀ n, r.attributesList.get n = r'.attributesList.get n
  metadata : ∀ n, r.metadataList.get n = r'.metadataList.get n
  providingApplication : r.providingApplication = r'.providingApplication

structure AppliedInOrder (s : System) (eid : String) : Prop where
  entry : ∀ attrRank, Option.Rel Same (s.ctxRegistrationList.get eid)
    ((applyAll attrRank s.sent).get eid)
  deleted : lastNaming eid s.sent = some (.deleteRegisteredEntity eid) →
    s.ctxRegistrationList.get eid = none
  registered : ∀ registerCtxReq, lastNaming eid s.sent = some (.registerContext registerCtxReq) →
    (s.ctxRegistrationList.get eid).isSome

def Settled (s : System) : Prop :=
  (∀ operations ∈ s.running, operations = []) → ∀ eid, AppliedInOrder s eid

-- the goroutines of the earlier requests have nothing left to do with the entity
def InTurn (s : System) : Label → Prop
  | .send _ => True
  | .run n _ => ∀ operation rest, s.running[n]? = some (operation :: rest) →
      ∀ earlier ∈ s.running.take n, ∀ other ∈ earlier, other.entity ≠ operation.entity

def todo (eid : String) (operations : List Operation) : List Operation :=
  operations.filter (fun operation => operation.entity == eid)

-- what an operation makes of the entry of its entity
def effect (attrRank : String → Nat) (entry : Option EntityRegistration) :
    Operation → Option EntityRegistration
  | .updateEntity entity registration =>
      some ((entry.map (updateExisting attrRank · entity registration)).getD
        (entityRegistration entity registration))
  | .deleteRegistration _ | .deleteEntity _ => none

def effects (entry : Option EntityRegistration) (operations : List Operation) :
    Option EntityRegistration :=
  operations.foldl (effect (fun _ => 0)) entry

def FiledEntry (entry : Option EntityRegistration) : Prop :=
  ∀ r ∈ entry, Filed r.attributesList

variable {s t : System} {a b c : Option EntityRegistration}

theorem Same.refl (r : EntityRegistration) : Same r r := ⟨rfl, rfl, fun _ => rfl, fun _ => rfl, rfl⟩

theorem Same.trans {r r' r'' : EntityRegistration} (h : Same r r') (h' : Same r' r'') :
    Same r r'' :=
  ⟨h.id.trans h'.id, h.type.trans h'.type, fun n => (h.attributes n).trans (h'.attributes n),
    fun n => (h.metadata n).trans (h'.metadata n),
    h.providingApplication.trans h'.providingApplication⟩

theorem sameEntry_refl (a : Option EntityRegistration) : Option.Rel Same a a := by
  cases a with
  | none => exact .none
  | some r => exact .some (.refl r)

theorem sameEntry_trans (h : Option.Rel Same a b) (h' : Option.Rel Same b c) :
    Option.Rel Same a c := by
  cases h with
  | none =>
    cases h'
    exact .none
  | some hr =>
    cases h' with
    | some hr' => exact .some (hr.trans hr')

theorem Same.symm {r r' : EntityRegistration} (h : Same r r') : Same r' r :=
  ⟨h.id.symm, h.type.symm, fun n => (h.attributes n).symm, fun n => (h.metadata n).symm,
    h.providingApplication.symm⟩

theorem sameEntry_symm (h : Option.Rel Same a b) : Option.Rel Same b a := by
  cases h with
  | none => exact .none
  | some hr => exact .some hr.symm

-- the loop that deletes attributes leaves the same table in every order
theorem same_updateExisting {attrRank attrRank' : String → Nat} {r r' : EntityRegistration}
    (h : Same r r') (hr : Filed r.attributesList) (hr' : Filed r'.attributesList)
    (entity : EntityId) (registration : ContextRegistration) :
    Same (updateExisting attrRank r entity registration)
      (updateExisting attrRank' r' entity registration) := by
  have hset := filed_setAttributes hr registration.contextRegistrationAttributes
  have hset' := filed_setAttributes hr' registration.contextRegistrationAttributes
  refine ⟨h.id, ?_, fun n => ?_, fun n => ?_, ?_⟩
  · simp [updateExisting, h.type]
  · apply Option.ext
    intro found
    simp only [updateExisting, get_deleteOldAttributes hset, get_deleteOldAttributes hset',
      get_setAttributes, h.attributes n]
  · simp only [updateExisting, get_setMetadata, h.metadata n]
  · simp [updateExisting, h.providingApplication]

theorem filed_effect (ha : FiledEntry a) (attrRank : String → Nat) (operation : Operation) :
    FiledEntry (effect attrRank a operation) := by
  cases operation with
  | updateEntity entity registration =>
    intro r hr
    obtain rfl := Option.some.inj hr
    cases a with
    | none => exact filed_setAttributes filed_empty _
    | some old => exact filed_updateExisting (ha old rfl)
  | _ => simp [effect, FiledEntry]

theorem same_effect {attrRank attrRank' : String → Nat} (h : Option.Rel Same a b)
    (ha : FiledEntry a) (hb : FiledEntry b) (operation : Operation) :
    Option.Rel Same (effect attrRank a operation) (effect attrRank' b operation) := by
  cases operation with
  | updateEntity entity registration =>
    cases h with
    | none => exact .some (.refl _)
    | some hr => exact .some (same_updateExisting hr (ha _ rfl) (hb _ rfl) entity registration)
  | _ => exact .none

theorem same_effects (h : Option.Rel Same a b) (ha : FiledEntry a) (hb : FiledEntry b)
    (operations : List Operation) :
    Option.Rel Same (effects a operations) (effects b operations) := by
  induction operations generalizing a b with
  | nil => exact h
  | cons operation operations ih =>
    exact ih (same_effect h ha hb operation) (filed_effect ha _ operation)
      (filed_effect hb _ operation)

theorem filed_effects (ha : FiledEntry a) (operations : List Operation) :
    FiledEntry (effects a operations) := by
  induction operations generalizing a with
  | nil => exact ha
  | cons operation operations ih => exact ih (filed_effect ha _ operation)

def AllFiled (list : CtxRegistrationList) : Prop := ∀ eid, FiledEntry (list.get eid)

variable {list : CtxRegistrationList}

@[simp] theorem todo_append (eid : String) (operations operations' : List Operation) :
    todo eid (operations ++ operations') = todo eid operations ++ todo eid operations' :=
  List.filter_append _ _

theorem effects_append (entry : Option EntityRegistration)
    (operations operations' : List Operation) :
    effects entry (operations ++ operations') = effects (effects entry operations) operations' :=
  List.foldl_append

theorem todo_of_ne {eid : String} {operation : Operation} (h : operation.entity ≠ eid) :
    todo eid [operation] = [] := by
  simp [todo, h]

theorem todo_self (operation : Operation) : todo operation.entity [operation] = [operation] := by
  simp [todo]

theorem get_perform_ne (list : CtxRegistrationList) (attrRank : String → Nat)
    {operation : Operation} {eid : String} (h : operation.entity ≠ eid) :
    (perform attrRank list operation).1.get eid = list.get eid ∧
      todo eid (perform attrRank list operation).2 = [] := by
  cases operation with
  | updateEntity entity registration =>
    have hne : eid ≠ entity.id := Ne.symm h
    exact ⟨by rw [perform, get_updateRegistrationInMemory, if_neg hne], rfl⟩
  | deleteRegistration k =>
    refine ⟨rfl, ?_⟩
    simp only [perform]
    split_ifs
    · exact todo_of_ne (show (Operation.deleteEntity k).entity ≠ eid from h)
    · rfl
  | deleteEntity k =>
    have hne : eid ≠ k := Ne.symm h
    exact ⟨by rw [perform, GoMap.get_delete, if_neg hne], rfl⟩

theorem get_perform_self (hfiled : AllFiled list) (attrRank : String → Nat)
    (operation : Operation) :
    Option.Rel Same
      (effects ((perform attrRank list operation).1.get operation.entity)
        (todo operation.entity (perform attrRank list operation).2))
      (effect (fun _ => 0) (list.get operation.entity) operation) := by
  cases operation with
  | updateEntity entity registration =>
    have hget : (perform attrRank list (.updateEntity entity registration)).1.get entity.id =
        effect attrRank (list.get entity.id) (.updateEntity entity registration) := by
      simp [perform, get_updateRegistrationInMemory, effect]
    rw [Operation.entity, hget]
    exact same_effect (sameEntry_refl (list.get entity.id)) (hfiled _) (hfiled _)
      (.updateEntity entity registration)
  | deleteRegistration k =>
    cases hget : list.get k <;> simp [perform, Operation.entity, hget, effect, todo, effects]
  | deleteEntity k =>
    simp [perform, Operation.entity, effect, todo, effects, GoMap.get_delete]

theorem filed_perform (hfiled : AllFiled list) (attrRank : String → Nat) (operation : Operation) :
    AllFiled (perform attrRank list operation).1 := by
  intro eid
  cases operation with
  | updateEntity entity registration =>
    rw [perform, get_updateRegistrationInMemory]
    split_ifs
    · exact filed_effect (hfiled entity.id) attrRank (.updateEntity entity registration)
    · exact hfiled eid
  | deleteRegistration k => exact hfiled eid
  | deleteEntity k =>
    rw [perform, GoMap.get_delete]
    split_ifs
    · simp [FiledEntry]
    · exact hfiled eid

-- an operation leaves of the entry what it makes of it once the rest of its goroutine has run
theorem same_perform (hfiled : AllFiled list) (attrRank : String → Nat) (operation : Operation)
    (eid : String) (later : List Operation) :
    Option.Rel Same
      (effects ((perform attrRank list operation).1.get eid)
        (todo eid (perform attrRank list operation).2 ++ later))
      (effects (list.get eid) (todo eid [operation] ++ later)) := by
  by_cases hne : operation.entity ≠ eid
  · obtain ⟨hget, hnext⟩ := get_perform_ne list attrRank hne
    rw [hget, hnext, todo_of_ne hne]
    exact sameEntry_refl _
  · obtain rfl := not_not.mp hne
    rw [effects_append, effects_append, todo_self]
    exact same_effects (get_perform_self hfiled attrRank operation)
      (filed_effects (filed_perform hfiled attrRank operation _) _)
      (filed_effects (hfiled _) [operation]) later

def updates (calls : List ((EntityId × ContextRegistration) × Nat)) : List Operation :=
  calls.map (fun call => .updateEntity call.1.1 call.1.2)

theorem updates_zipIdx (calls : List (EntityId × ContextRegistration)) :
    updates calls.zipIdx = calls.map (fun call => .updateEntity call.1 call.2) := by
  have hfst : calls = calls.zipIdx.map Prod.fst := (List.zipIdx_map_fst 0 calls).symm
  conv_rhs => rw [hfst, List.map_map]
  rfl

theorem same_updates (attrRank : Nat → String → Nat)
    (calls : List ((EntityId × ContextRegistration) × Nat)) (hfiled : AllFiled list) :
    AllFiled (calls.foldl (fun list call =>
        updateRegistrationInMemory (attrRank call.2) list call.1.1 call.1.2) list) ∧
      ∀ eid, Option.Rel Same
        ((calls.foldl (fun list call =>
          updateRegistrationInMemory (attrRank call.2) list call.1.1 call.1.2) list).get eid)
        (effects (list.get eid) (todo eid (updates calls))) := by
  induction calls generalizing list with
  | nil => exact ⟨hfiled, fun eid => sameEntry_refl _⟩
  | cons call calls ih =>
    obtain ⟨hall, hsame⟩ := ih (filed_perform hfiled (attrRank call.2)
      (.updateEntity call.1.1 call.1.2))
    refine ⟨hall, fun eid => ?_⟩
    have hfirst := same_perform hfiled (attrRank call.2) (.updateEntity call.1.1 call.1.2) eid
      (todo eid (updates calls))
    rw [← todo_append eid [_]] at hfirst
    exact sameEntry_trans (hsame eid) hfirst

theorem same_applyRequest (attrRank : Nat → String → Nat) (request : Request)
    (hfiled : AllFiled list) :
    AllFiled (applyRequest attrRank list request) ∧
      ∀ eid, Option.Rel Same ((applyRequest attrRank list request).get eid)
        (effects (list.get eid) (todo eid (operationsOf request))) := by
  cases request with
  | registerContext registerCtxReq =>
    obtain ⟨hall, hsame⟩ := same_updates attrRank
      (registerCtxReq.contextRegistrations.flatMap (fun registration =>
        registration.entityIdList.map (fun entity => (entity, registration)))).zipIdx hfiled
    refine ⟨hall, fun eid => ?_⟩
    have hsame := hsame eid
    rw [updates_zipIdx, List.map_flatMap] at hsame
    simp only [List.map_map, Function.comp_def] at hsame
    exact hsame
  | deleteRegisteredEntity k =>
    have hdelete : ∀ eid, (applyRequest attrRank list (.deleteRegisteredEntity k)).get eid =
        if eid = k then none else list.get eid := by
      intro eid
      simp only [applyRequest]
      split_ifs with hsome heid heid
      · rw [GoMap.get_delete, if_pos heid]
      · rw [GoMap.get_delete, if_neg heid]
      · simpa [heid] using hsome
      · rfl
    constructor
    · intro eid
      rw [hdelete]
      split_ifs
      · simp [FiledEntry]
      · exact hfiled eid
    · intro eid
      rw [hdelete, operationsOf]
      split_ifs with heid
      · subst heid
        rw [show todo eid [.deleteRegistration eid] = [.deleteRegistration eid] from
          todo_self (.deleteRegistration eid)]
        exact .none
      · rw [todo_of_ne (Ne.symm heid)]
        exact sameEntry_refl _

theorem applyAll_concat (attrRank : Nat → Nat → String → Nat) (sent : List Request)
    (request : Request) :
    applyAll attrRank (sent ++ [request]) =
      applyRequest (attrRank sent.length) (applyAll attrRank sent) request := by
  simp [applyAll, List.zipIdx_append]

theorem same_applyAll (attrRank : Nat → Nat → String → Nat) (sent : List Request) :
    AllFiled (applyAll attrRank sent) ∧
      ∀ eid, Option.Rel Same ((applyAll attrRank sent).get eid)
        (effects none (todo eid (sent.flatMap operationsOf))) := by
  induction sent using List.reverseRecOn with
  | nil => exact ⟨fun eid => by simp [applyAll, FiledEntry], fun eid => .none⟩
  | append_singleton sent request ih =>
    obtain ⟨hall, hsame⟩ := ih
    obtain ⟨hall', hsame'⟩ := same_applyRequest (attrRank sent.length) request hall
    rw [applyAll_concat]
    refine ⟨hall', fun eid => ?_⟩
    rw [List.flatMap_append, List.flatMap_singleton, todo_append, effects_append]
    exact sameEntry_trans (hsame' eid) (same_effects (hsame eid) (hall eid)
      (filed_effects (by simp [FiledEntry]) _) _)

-- what is left to do turns every entry into the one that the order of the requests asks for
structure OnCourse (s : System) : Prop where
  filed : AllFiled s.ctxRegistrationList
  course : ∀ eid, Option.Rel Same
    (effects (s.ctxRegistrationList.get eid) (todo eid s.running.flatten))
    (effects none (todo eid (s.sent.flatMap operationsOf)))

theorem onCourse_init : OnCourse System.init :=
  ⟨fun eid => by simp [System.init, FiledEntry], fun eid => .none⟩

theorem onCourse_send (h : OnCourse s) (request : Request) :
    OnCourse { s with
      sent := s.sent ++ [request]
      running := s.running ++ [operationsOf request] } := by
  refine ⟨h.filed, fun eid => ?_⟩
  simp only [List.flatten_append, List.flatten_singleton, List.flatMap_append,
    List.flatMap_singleton, todo_append, effects_append]
  exact same_effects (h.course eid) (filed_effects (h.filed eid) _)
    (filed_effects (by simp [FiledEntry]) _) _

theorem todo_eq_nil {eid : String} {operations : List Operation}
    (h : ∀ operation ∈ operations, operation.entity ≠ eid) : todo eid operations = [] := by
  simpa [todo] using h

theorem onCourse_run (h : OnCourse s) {n : Nat} {attrRank : String → Nat} {operation : Operation}
    {rest : List Operation} (hg : s.running[n]? = some (operation :: rest))
    (hturn : InTurn s (.run n attrRank)) :
    OnCourse { s with
      ctxRegistrationList := (perform attrRank s.ctxRegistrationList operation).1
      running := s.running.set n ((perform attrRank s.ctxRegistrationList operation).2 ++
        rest) } := by
  refine ⟨filed_perform h.filed attrRank operation, fun eid => sameEntry_trans ?_ (h.course eid)⟩
  obtain ⟨before, after, hbefore, hsplit, hset, -⟩ := Pool.split_of_getElem? hg
  have hearlier : eid = operation.entity → todo eid before.flatten = [] := by
    rintro rfl
    refine todo_eq_nil (fun other hother => ?_)
    obtain ⟨earlier, hmem, hother⟩ := List.mem_flatten.mp hother
    exact hturn operation rest hg earlier (hbefore ▸ hmem) other hother
  have hstep := same_perform h.filed attrRank operation eid
    (todo eid rest ++ todo eid after.flatten)
  dsimp only
  rw [hset, hsplit]
  simp only [List.flatten_append, List.flatten_cons, todo_append, List.append_assoc]
  rw [show todo eid (operation :: rest) = todo eid [operation] ++ todo eid rest from
    todo_append eid [operation] rest, List.append_assoc]
  by_cases heid : eid = operation.entity
  · rw [hearlier heid]
    exact hstep
  · obtain ⟨hget, hnext⟩ := get_perform_ne s.ctxRegistrationList attrRank (Ne.symm heid)
    rw [hget, hnext, todo_of_ne (Ne.symm heid)]
    exact sameEntry_refl _

theorem onCourse_step (h : OnCourse s) {label : Label} (hturn : InTurn s label)
    (hs : step s label = some t) : OnCourse t := by
  cases label with
  | send request =>
    rw [← Option.some.inj hs]
    exact onCourse_send h request
  | run n attrRank =>
    simp only [step] at hs
    split at hs
    case h_1 operation rest hg =>
      rw [← Option.some.inj hs]
      exact onCourse_run h hg hturn
    case h_2 => cases hs

theorem split_lastNaming {eid : String} {sent : List Request} {request : Request}
    (h : lastNaming eid sent = some request) :
    request.names eid = true ∧ ∃ front, todo eid (sent.flatMap operationsOf) =
      todo eid front ++ todo eid (operationsOf request) := by
  obtain ⟨earlier, hfilter⟩ := List.getLast?_eq_some_iff.mp h
  obtain ⟨front, back, rfl, -, hback⟩ := List.filter_eq_append_iff.mp hfilter
  obtain ⟨before, after, rfl, hbefore, hnames, hafter⟩ := List.filter_eq_cons_iff.mp hback
  have hskip : ∀ requests : List Request, (∀ r ∈ requests, ¬ r.names eid = true) →
      todo eid (requests.flatMap operationsOf) = [] := by
    intro requests hno
    refine todo_eq_nil (fun operation hmem heid => ?_)
    obtain ⟨r, hr, hop⟩ := List.mem_flatMap.mp hmem
    exact hno r hr (List.any_eq_true.mpr ⟨operation, hop, by simp [heid]⟩)
  refine ⟨hnames, front.flatMap operationsOf, ?_⟩
  simp only [List.flatMap_append, List.flatMap_cons, todo_append]
  rw [hskip before hbefore, hskip after (List.filter_eq_nil_iff.mp hafter)]
  simp

theorem isSome_effects {entry : Option EntityRegistration} {operations : List Operation}
    (hne : operations ≠ [])
    (h : ∀ operation ∈ operations, ∃ entity registration,
      operation = .updateEntity entity registration) : (effects entry operations).isSome := by
  obtain ⟨front, last, rfl⟩ := (List.eq_nil_or_concat operations).resolve_left hne
  obtain ⟨entity, registration, rfl⟩ := h last (by simp)
  simp [effects, effect]

theorem deleted_of_lastNaming {eid : String} {sent : List Request}
    (h : lastNaming eid sent = some (.deleteRegisteredEntity eid)) :
    effects none (todo eid (sent.flatMap operationsOf)) = none := by
  obtain ⟨-, front, hsplit⟩ := split_lastNaming h
  rw [hsplit, effects_append, operationsOf,
    show todo eid [.deleteRegistration eid] = [.deleteRegistration eid] from
      todo_self (.deleteRegistration eid)]
  rfl

theorem registered_of_lastNaming {eid : String} {sent : List Request}
    {registerCtxReq : RegisterContextRequest}
    (h : lastNaming eid sent = some (.registerContext registerCtxReq)) :
    (effects none (todo eid (sent.flatMap operationsOf))).isSome := by
  obtain ⟨hnames, front, hsplit⟩ := split_lastNaming h
  rw [hsplit, effects_append]
  refine isSome_effects ?_ ?_
  · obtain ⟨operation, hmem, heid⟩ := List.any_eq_true.mp hnames
    exact List.ne_nil_of_mem (List.mem_filter.mpr ⟨hmem, heid⟩)
  · intro operation hmem
    obtain ⟨registration, -, hop⟩ := List.mem_flatMap.mp (List.mem_of_mem_filter hmem)
    obtain ⟨entity, -, rfl⟩ := List.mem_map.mp hop
    exact ⟨entity, registration, rfl⟩

theorem OnCourse.settled (h : OnCourse s) : Settled s := by
  intro hdone eid
  have hflat : s.running.flatten = [] := List.flatten_eq_nil_iff.mpr hdone
  have hentry := h.course eid
  rw [hflat] at hentry
  refine ⟨fun attrRank => ?_, fun hlast => ?_, fun registerCtxReq hlast => ?_⟩
  · exact sameEntry_trans hentry (sameEntry_symm ((same_applyAll attrRank s.sent).2 eid))
  · rw [deleted_of_lastNaming hlast] at hentry
    cases hget : s.ctxRegistrationList.get eid with
    | none => rfl
    | some r =>
      rw [hget] at hentry
      cases hentry
  · have hsome := registered_of_lastNaming hlast
    cases hget : s.ctxRegistrationList.get eid with
    | none =>
      rw [hget] at hentry
      generalize effects none (todo eid (s.sent.flatMap operationsOf)) = entry at hentry hsome
      cases hentry
      cases hsome
    | some r => rfl

theorem requests_applied_in_order {is : List Label} (hturn : Meets step InTurn System.init is) :
    Always step Settled System.init is :=
  always_of_meets (I := fun _ s => OnCourse s) hturn onCourse_init
    (fun _ _ _ _ _ _ hr hc ht => onCourse_step hr hc ht) (fun _ _ h => h.settled)

def registerCar : Request :=
  .registerContext ⟨[⟨[⟨"Car", false, "car1"⟩], [], [], "broker"⟩], "PT10M", "registration"⟩

def earlierDone (s : System) : Label → Bool
  | .send _ => true
  | .run n _ => (s.running.take n).all List.isEmpty

theorem inTurn_of_earlierDone {label : Label} (h : earlierDone s label = true) :
    InTurn s label := by
  cases label with
  | send request => trivial
  | run n attrRank =>
    intro operation rest _ earlier hmem other hother
    have hempty := List.all_eq_true.mp h earlier hmem
    rw [List.isEmpty_iff.mp hempty] at hother
    cases hother

theorem car_requests_in_order :
    Always step Settled System.init [.send registerCar, .run 0 (fun _ => 0),
      .send (.deleteRegisteredEntity "car1"), .run 1 (fun _ => 0), .run 1 (fun _ => 0)] :=
  requests_applied_in_order (meets_of_check (c := earlierDone)
    (fun _ _ _ h => inTurn_of_earlierDone h) rfl)

-- the goroutine of the deletion finds no entity yet, the one of the registration comes after it
theorem deletion_overtakes_registration :
    ∃ s, exec step System.init [.send registerCar, .send (.deleteRegisteredEntity "car1"),
        .run 1 (fun _ => 0), .run 0 (fun _ => 0)] = some s ∧
      s.running = [[], []] ∧ lastNaming "car1" s.sent = some (.deleteRegisteredEntity "car1") ∧
      (s.ctxRegistrationList.get "car1").isSome ∧ ¬ Settled s := by
  have hlast : lastNaming "car1" [registerCar, .deleteRegisteredEntity "car1"] =
      some (.deleteRegisteredEntity "car1") := rfl
  refine ⟨_, rfl, rfl, hlast, rfl, fun hsettled => ?_⟩
  have hdone : ∀ operations ∈ ([[], []] : List (List Operation)), operations = [] := by simp
  have hgone := (hsettled hdone "car1").deleted hlast
  cases hgone

end FogFlow.Discovery.Requests
