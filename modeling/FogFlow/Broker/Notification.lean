import FogFlow.Broker.ThinBroker

namespace FogFlow.Broker

open Ngsi Handler

def Unlocked (tb : ThinBroker) : Prop := tb.e2subLocked = false

-- the handler ends normally, changes neither map and leaves the lock free
structure Quiet (tb : ThinBroker) (o : Outcome ThinBroker) : Prop where
  exit : o.exit = .done
  subscriptions : ∀ k, o.state.subscriptions.get k = tb.subscriptions.get k
  index : ∀ k, o.state.entityId2Subcriptions.get k = tb.entityId2Subcriptions.get k
  unlocked : Unlocked o.state

-- what the message may say about entities once its main subscription is gone
def Harmless (cfg : Config) (index : GoMap (List String)) (mainSubID : String)
    (req : NotifyContextAvailabilityRequest) : Prop :=
  cfg.debugEnabled = false ∧ ∀ registrationResp ∈ req.contextRegistrationResponseList,
    registrationResp.contextRegistration.providingApplication = cfg.myURL ∧
    ∀ eid ∈ registrationResp.contextRegistration.entityIdList,
      actionOf req.errorCode.code = .delete ∧ mainSubID ∉ index.slice eid.id

def Ends (h : Handler ThinBroker) : Prop := Keeps (fun _ => True) h

theorem ends_modify (g : ThinBroker → ThinBroker) : Ends (modify g) :=
  fun _ _ => ⟨rfl, trivial⟩

theorem ends_addToIndex (id subID : String) : Ends (addToIndex id subID) := by
  intro tb _
  unfold addToIndex
  split_ifs <;> exact ⟨rfl, trivial⟩

theorem unlocked_of_locked {tb : ThinBroker} (h : Unlocked tb) :
    lockE2sub tb = ⟨{ tb with e2subLocked := true }, .done⟩ := by
  have hl : tb.e2subLocked = false := h
  simp [lockE2sub, hl]

theorem unlocked_section {h : Handler ThinBroker} (hh : Ends h) :
    Keeps Unlocked (seq lockE2sub (seq h unlockE2sub)) := by
  intro tb htb
  have hlock := unlocked_of_locked htb
  rw [seq_of_done (by rw [hlock]), hlock, seq_of_done (hh _ trivial).1]
  exact ⟨rfl, rfl⟩

theorem unlocked_subscribeContext (subReq : SubscribeContextRequest) (subID : String) :
    Keeps Unlocked (subscribeContext subReq subID) := by
  refine keeps_seq (fun tb h => ⟨rfl, h⟩) ?_
  split_ifs
  · refine keeps_each (fun entity _ => unlocked_section ?_)
    split_ifs
    · exact keeps_each (fun wildCard _ => ends_addToIndex wildCard subID)
    · exact ends_addToIndex _ _
  · exact keeps_skip

section Backed

variable {cfg : Config} {action : Action} {isProsumer : Bool}
  {contextSubscription : Option SubscribeContextRequest} {mainSubID : String}
  {answer : Option String} {registration : ContextRegistration}

theorem ends_associateEntity (h : isProsumer = true ∨ contextSubscription ≠ none)
    (eid : EntityId) :
    Ends (associateEntity action isProsumer contextSubscription mainSubID eid) := by
  unfold associateEntity
  cases isProsumer with
  | true =>
    cases action with
    | create | update => exact ends_addToIndex _ _
    | delete => exact ends_modify _
  | false =>
    obtain ⟨request, rfl⟩ := Option.ne_none_iff_exists'.mp (h.resolve_left Bool.false_ne_true)
    cases action with
    | delete => exact ends_modify _
    | create | update =>
      simp only [Bool.false_eq_true, if_false, askSimplyByType]
      split_ifs
      · exact keeps_each (fun wildCard _ => ends_addToIndex wildCard mainSubID)
      · first | exact ends_modify _ | exact ends_addToIndex _ _

theorem unlocked_subscribeRemote (entities : List EntityId) :
    Keeps Unlocked (subscribeRemote cfg action mainSubID answer registration entities) := by
  intro tb htb
  unfold subscribeRemote
  split_ifs
  · exact ⟨rfl, htb⟩
  · cases answer <;> exact ⟨rfl, htb⟩

theorem unlocked_contactProvider (h : isProsumer = true ∨ contextSubscription ≠ none) :
    Keeps Unlocked (contactProvider cfg action isProsumer contextSubscription mainSubID answer
      registration) := by
  intro tb htb
  unfold contactProvider
  split_ifs with howner hprosumer
  · exact ⟨rfl, htb⟩
  · exact unlocked_subscribeRemote _ tb htb
  · obtain ⟨request, rfl⟩ := Option.ne_none_iff_exists'.mp (h.resolve_left hprosumer)
    exact unlocked_subscribeRemote _ tb htb

theorem unlocked_handleRegistration (h : isProsumer = true ∨ contextSubscription ≠ none) :
    Keeps Unlocked (handleRegistration cfg action isProsumer contextSubscription mainSubID answer
      registration) :=
  keeps_seq (unlocked_contactProvider h)
    (keeps_each (fun eid _ => unlocked_section (ends_associateEntity h eid)))

end Backed

-- a notification with a subscription behind it leaves the lock free
theorem unlocked_handleNGSI9Notify {cfg : Config} {answers : Nat → Option String}
    {mainSubID : String} {req : NotifyContextAvailabilityRequest} {isProsumer : Bool}
    {tb : ThinBroker} (h : isProsumer = true ∨ tb.subscriptions.get mainSubID ≠ none)
    (htb : Unlocked tb) :
    Unlocked (handleNGSI9Notify cfg answers mainSubID req isProsumer tb).state := by
  unfold handleNGSI9Notify
  have hsub : isProsumer = true ∨
      (if isProsumer then none else tb.subscriptions.get mainSubID) ≠ none := by
    cases isProsumer with
    | true => exact Or.inl rfl
    | false => exact Or.inr (h.resolve_left Bool.false_ne_true)
  have hlog : Keeps Unlocked (logSubscription cfg isProsumer
      (if isProsumer then none else tb.subscriptions.get mainSubID)) := by
    unfold logSubscription
    split_ifs with hdebug hprosumer
    · simp [hprosumer] at hdebug
    · obtain ⟨request, hr⟩ := Option.ne_none_iff_exists'.mp (h.resolve_left hprosumer)
      rw [hr]
      exact keeps_skip
    · exact keeps_skip
  exact (keeps_seq hlog (keeps_each (fun _ _ => unlocked_handleRegistration hsub)) tb htb).2

theorem unlocked_handleProsumerRegistration {cfg : Config} {answers : Nat → Option String}
    {notifyAvail : NotifyContextAvailabilityRequest} {tb : ThinBroker} (htb : Unlocked tb) :
    Unlocked (handleProsumerRegistration cfg answers notifyAvail tb).state := by
  have hown : Keeps Unlocked (each (fun registrationResp : ContextRegistrationResponse =>
      each (fun request => subscribeContext request (genProsumerSubID notifyAvail.subscriptionId))
        (prosumerRequests cfg registrationResp.contextRegistration))
      notifyAvail.contextRegistrationResponseList) :=
    keeps_each (fun _ _ => keeps_each (fun request _ => unlocked_subscribeContext request _))
  obtain ⟨hd, hu⟩ := hown tb htb
  unfold handleProsumerRegistration
  rw [seq_of_done hd]
  exact unlocked_handleNGSI9Notify (Or.inl rfl) hu

section Kept

variable {P : ThinBroker → Prop} {cfg : Config} {answers : Nat → Option String} {action : Action}
  {isProsumer : Bool} {contextSubscription : Option SubscribeContextRequest} {subID mainSubID : String}
  {answer : Option String} {registration : ContextRegistration}

-- whatever the index is made to say of this subscription, the property stays
structure KeptFor (P : ThinBroker → Prop) (subID : String) : Prop where
  lock : ∀ tb b, P tb → P { tb with e2subLocked := b }
  append : ∀ id, Leaves P (appendToIndex id subID)
  remove : ∀ id, Leaves P (removeFromIndex id subID)

def KeptByRemote (P : ThinBroker → Prop) (cfg : Config) (mainSubID : String)
    (answer : Option String) (registration : ContextRegistration) : Prop :=
  registration.providingApplication ≠ cfg.myURL → ∀ sid, answer = some sid →
    ∀ entities tb, P tb → P (tb.addRemote mainSubID sid (remoteRequest cfg entities registration))

theorem KeptFor.addToIndex (h : KeptFor P subID) (id : String) :
    Leaves P (addToIndex id subID) := by
  intro tb htb
  unfold Broker.addToIndex
  split_ifs
  · exact htb
  · exact h.append id tb htb

theorem leaves_section {handler : Handler ThinBroker}
    (hlock : ∀ tb b, P tb → P { tb with e2subLocked := b }) (hh : Leaves P handler) :
    Leaves P (seq lockE2sub (seq handler unlockE2sub)) := by
  refine leaves_seq (fun tb htb => ?_) (leaves_seq hh (fun tb htb => hlock tb false htb))
  unfold lockE2sub
  split_ifs
  · exact htb
  · exact hlock tb true htb

theorem KeptFor.subscribeContext {subReq : SubscribeContextRequest} (h : KeptFor P subID)
    (hput : ∀ tb, P tb → P (tb.putSubscription subID subReq)) :
    Leaves P (subscribeContext subReq subID) := by
  refine leaves_seq hput ?_
  split_ifs
  · refine leaves_each (fun entity _ => leaves_section h.lock ?_)
    split_ifs
    · exact leaves_each (fun wildCard _ => h.addToIndex wildCard)
    · exact h.addToIndex entity.id
  · exact leaves_skip

theorem leaves_askSimplyByType {k : SubscribeContextRequest → Bool → Handler ThinBroker}
    (h : ∀ request simplyByType, Leaves P (k request simplyByType)) :
    Leaves P (askSimplyByType contextSubscription k) := by
  cases contextSubscription with
  | none => exact leaves_fault
  | some request => exact h _ _

theorem leaves_logSubscription : Leaves P (logSubscription cfg isProsumer contextSubscription) := by
  unfold logSubscription
  split_ifs
  · exact leaves_askSimplyByType (fun _ _ => leaves_skip)
  · exact leaves_skip

theorem KeptFor.associateEntity (h : KeptFor P mainSubID) (eid : EntityId) :
    Leaves P (associateEntity action isProsumer contextSubscription mainSubID eid) := by
  unfold Broker.associateEntity
  cases action with
  | delete => exact h.remove eid.id
  | create | update =>
    dsimp only
    split_ifs
    · exact h.addToIndex _
    · refine leaves_askSimplyByType (fun request simplyByType => ?_)
      split_ifs
      · exact leaves_each (fun wildCard _ => h.addToIndex wildCard)
      · first | exact h.append eid.id | exact h.addToIndex eid.id

theorem leaves_contactProvider (h : KeptByRemote P cfg mainSubID answer registration) :
    Leaves P (contactProvider cfg action isProsumer contextSubscription mainSubID answer
      registration) := by
  have hremote : registration.providingApplication ≠ cfg.myURL → ∀ entities,
      Leaves P (subscribeRemote cfg action mainSubID answer registration entities) := by
    intro hne entities tb htb
    unfold subscribeRemote
    split_ifs
    · exact htb
    · cases answer with
      | none => exact htb
      | some sid => exact h hne sid rfl entities tb htb
  unfold contactProvider
  split_ifs with howner
  · exact leaves_skip
  · exact hremote howner _
  · exact leaves_askSimplyByType (fun _ _ tb htb => hremote howner _ tb htb)

theorem KeptFor.handleNGSI9Notify {req : NotifyContextAvailabilityRequest}
    (h : KeptFor P mainSubID) (hremote : ∀ r ∈ req.contextRegistrationResponseList.zipIdx,
      KeptByRemote P cfg mainSubID (answers r.2) r.1.contextRegistration) :
    Leaves P (handleNGSI9Notify cfg answers mainSubID req isProsumer) := by
  intro tb htb
  refine leaves_seq (P := P) leaves_logSubscription (leaves_each (fun r hr => ?_)) tb htb
  exact leaves_seq (leaves_contactProvider (hremote r hr))
    (leaves_each (fun eid _ => leaves_section h.lock (h.associateEntity eid)))

end Kept

theorem slice_deleteFromIndex (index : GoMap (List String)) (id subID k : String) :
    (deleteFromIndex index id subID).slice k =
      if k = id then (index.slice id).erase subID else index.slice k := by
  unfold deleteFromIndex
  split_ifs with hmem hk hk
  · rw [hk, GoMap.slice_set, if_pos rfl]
  · rw [GoMap.slice_set, if_neg hk]
  · rw [hk, List.erase_of_not_mem (by simpa using hmem)]
  · rfl

theorem deleteFromIndex_of_notMem {index : GoMap (List String)} {id subID : String}
    (h : subID ∉ index.slice id) : deleteFromIndex index id subID = index := by
  simp [deleteFromIndex, h]

def deleteAll (mainSubID : String) (index : GoMap (List String)) (ids : List EntityId) :
    GoMap (List String) :=
  ids.foldl (fun index eid => deleteFromIndex index eid.id mainSubID) index

theorem count_deleteAll_le (mainSubID k : String) (index : GoMap (List String))
    (ids : List EntityId) :
    ((deleteAll mainSubID index ids).slice k).count mainSubID ≤
      (index.slice k).count mainSubID := by
  induction ids generalizing index with
  | nil => exact le_refl _
  | cons eid ids ih =>
    refine (ih (deleteFromIndex index eid.id mainSubID)).trans ?_
    rw [slice_deleteFromIndex]
    split_ifs with hk
    · rw [hk]
      exact List.erase_sublist.count_le _
    · exact le_refl _

-- an index that ends as it began has had nothing deleted
theorem notMem_of_deleteAll {mainSubID : String} {index : GoMap (List String)}
    {ids : List EntityId} (h : ∀ k, (deleteAll mainSubID index ids).slice k = index.slice k) :
    ∀ eid ∈ ids, mainSubID ∉ index.slice eid.id := by
  induction ids generalizing index with
  | nil => simp
  | cons eid ids ih =>
    have hhead : mainSubID ∉ index.slice eid.id := by
      intro hmem
      have hle := count_deleteAll_le mainSubID eid.id (deleteFromIndex index eid.id mainSubID) ids
      have hall : deleteAll mainSubID (deleteFromIndex index eid.id mainSubID) ids =
        deleteAll mainSubID index (eid :: ids) := rfl
      rw [hall, h, slice_deleteFromIndex, if_pos rfl, List.count_erase_self] at hle
      have := List.count_pos_iff.mpr hmem
      omega
    have hrest : ∀ k, (deleteAll mainSubID index ids).slice k = index.slice k := by
      intro k
      rw [← h k, deleteAll, deleteAll, List.foldl_cons, deleteFromIndex_of_notMem hhead]
    intro e he
    rcases List.mem_cons.mp he with rfl | he
    · exact hhead
    · exact ih hrest e he

theorem deleteAll_of_notMem {mainSubID : String} {index : GoMap (List String)}
    {ids : List EntityId} (h : ∀ eid ∈ ids, mainSubID ∉ index.slice eid.id) :
    deleteAll mainSubID index ids = index := by
  induction ids with
  | nil => rfl
  | cons eid ids ih =>
    rw [deleteAll, List.foldl_cons, deleteFromIndex_of_notMem (h eid (by simp))]
    exact ih (fun e he => h e (List.mem_cons_of_mem _ he))

section Removed

variable {cfg : Config} {answers : Nat → Option String} {mainSubID : String}
  {req : NotifyContextAvailabilityRequest} {tb : ThinBroker}

theorem section_of_fault {action : Action} {eid : EntityId} (hact : action ≠ .delete) :
    (seq lockE2sub (seq (associateEntity action false none mainSubID eid) unlockE2sub) tb).exit ≠
      .done := by
  intro hd
  obtain ⟨-, hd⟩ := seq_eq_done.mp hd
  obtain ⟨hd, -⟩ := seq_eq_done.mp hd
  cases action with
  | delete => exact hact rfl
  | create | update => cases hd

-- the nil subscription is asked as soon as a registration is not of this broker or has an entity
theorem registration_of_done {action : Action} {answer : Option String}
    {registration : ContextRegistration}
    (hd : (handleRegistration cfg action false none mainSubID answer registration tb).exit =
      .done) :
    registration.providingApplication = cfg.myURL ∧
      ∀ eid ∈ registration.entityIdList, action = .delete := by
  obtain ⟨hcontact, heach⟩ := seq_eq_done.mp hd
  constructor
  · by_contra howner
    simp [contactProvider, howner, askSimplyByType, fault] at hcontact
  · intro eid heid
    by_contra hact
    obtain ⟨t, ht⟩ := exists_done_of_each heach eid heid
    exact section_of_fault hact ht

def withIndex (tb : ThinBroker) (index : GoMap (List String)) : ThinBroker :=
  { tb with entityId2Subcriptions := index }

theorem deletion_section {eid : EntityId} (htb : Unlocked tb) :
    seq lockE2sub (seq (associateEntity .delete false none mainSubID eid) unlockE2sub) tb =
      ⟨withIndex tb (deleteFromIndex tb.entityId2Subcriptions eid.id mainSubID), .done⟩ := by
  have hlock := unlocked_of_locked htb
  have hl : tb.e2subLocked = false := htb
  rw [seq_of_done (by rw [hlock]), hlock, seq_of_done rfl]
  simp [unlockE2sub, Handler.modify, associateEntity, removeFromIndex, withIndex, hl]

def deleteEntities (mainSubID : String) (tb : ThinBroker) (ids : List EntityId) : ThinBroker :=
  withIndex tb (deleteAll mainSubID tb.entityId2Subcriptions ids)

theorem deleteEntities_append (ids ids' : List EntityId) :
    deleteEntities mainSubID (deleteEntities mainSubID tb ids) ids' =
      deleteEntities mainSubID tb (ids ++ ids') := by
  simp [deleteEntities, withIndex, deleteAll]

theorem foldl_deleteEntities {α : Type} (f : α → List EntityId) (xs : List α) :
    xs.foldl (fun tb x => deleteEntities mainSubID tb (f x)) tb =
      deleteEntities mainSubID tb (xs.flatMap f) := by
  induction xs generalizing tb with
  | nil => rfl
  | cons x xs ih => rw [List.foldl_cons, ih, deleteEntities_append, List.flatMap_cons]

theorem local_registration {action : Action} {answer : Option String}
    {registration : ContextRegistration}
    (howner : registration.providingApplication = cfg.myURL)
    (hdelete : ∀ eid ∈ registration.entityIdList, action = .delete) (htb : Unlocked tb) :
    handleRegistration cfg action false none mainSubID answer registration tb =
      ⟨deleteEntities mainSubID tb registration.entityIdList, .done⟩ := by
  have hcontact : contactProvider cfg action false none mainSubID answer registration tb =
      ⟨tb, .done⟩ := by
    rw [contactProvider, if_pos howner]
    rfl
  rw [handleRegistration, seq_of_done (by rw [hcontact]), hcontact]
  refine (each_eq_foldl (P := Unlocked)
    (g := fun tb eid => deleteEntities mainSubID tb [eid]) ?_ (fun _ _ h => h) htb).trans ?_
  · intro eid heid t ht
    obtain rfl := hdelete eid heid
    exact deletion_section ht
  · rw [foldl_deleteEntities, List.flatMap_singleton']

def entitiesOf (req : NotifyContextAvailabilityRequest) : List EntityId :=
  req.contextRegistrationResponseList.flatMap (fun registrationResp =>
    registrationResp.contextRegistration.entityIdList)

theorem handleNGSI9Notify_local (hdebug : cfg.debugEnabled = false)
    (hgone : tb.subscriptions.get mainSubID = none) (htb : Unlocked tb)
    (hlocal : ∀ registrationResp ∈ req.contextRegistrationResponseList,
      registrationResp.contextRegistration.providingApplication = cfg.myURL ∧
      ∀ eid ∈ registrationResp.contextRegistration.entityIdList,
        actionOf req.errorCode.code = .delete) :
    handleNGSI9Notify cfg answers mainSubID req false tb =
      ⟨deleteEntities mainSubID tb (entitiesOf req), .done⟩ := by
  have hlog : logSubscription cfg false none tb = ⟨tb, .done⟩ := by
    simp [logSubscription, hdebug, skip]
  unfold handleNGSI9Notify
  simp only [hgone, Bool.false_eq_true, if_false]
  rw [seq_of_done (by rw [hlog]), hlog]
  refine (each_eq_foldl (P := Unlocked) (g := fun tb registrationResp =>
    deleteEntities mainSubID tb registrationResp.1.contextRegistration.entityIdList) ?_
    (fun _ _ h => h) htb).trans ?_
  · intro registrationResp hmem t ht
    obtain ⟨howner, hdelete⟩ := hlocal _ (List.fst_mem_of_mem_zipIdx hmem)
    exact local_registration howner hdelete ht
  · rw [foldl_deleteEntities, entitiesOf]
    congr 2
    conv_rhs => rw [← List.zipIdx_map_fst 0 req.contextRegistrationResponseList]
    rw [List.flatMap_map]

theorem local_of_done (hgone : tb.subscriptions.get mainSubID = none)
    (hd : (handleNGSI9Notify cfg answers mainSubID req false tb).exit = .done) :
    cfg.debugEnabled = false ∧ ∀ registrationResp ∈ req.contextRegistrationResponseList,
      registrationResp.contextRegistration.providingApplication = cfg.myURL ∧
      ∀ eid ∈ registrationResp.contextRegistration.entityIdList,
        actionOf req.errorCode.code = .delete := by
  unfold handleNGSI9Notify at hd
  simp only [hgone, Bool.false_eq_true, if_false] at hd
  obtain ⟨hlog, heach⟩ := seq_eq_done.mp hd
  constructor
  · by_contra hdebug
    have hon : cfg.debugEnabled = true := by simpa using hdebug
    simp [logSubscription, hon, askSimplyByType, fault] at hlog
  · intro registrationResp hmem
    rw [← List.zipIdx_map_fst 0 req.contextRegistrationResponseList] at hmem
    obtain ⟨indexed, hindexed, rfl⟩ := List.mem_map.mp hmem
    obtain ⟨t, ht⟩ := exists_done_of_each heach indexed hindexed
    exact registration_of_done ht

theorem quiet_iff_harmless (hgone : tb.subscriptions.get mainSubID = none) (htb : Unlocked tb) :
    Quiet tb (handleNGSI9Notify cfg answers mainSubID req false tb) ↔
      Harmless cfg tb.entityId2Subcriptions mainSubID req := by
  constructor
  · intro hquiet
    obtain ⟨hdebug, hlocal⟩ := local_of_done hgone hquiet.exit
    have hindex := hquiet.index
    rw [handleNGSI9Notify_local hdebug hgone htb hlocal] at hindex
    have hslice : ∀ k, (deleteAll mainSubID tb.entityId2Subcriptions (entitiesOf req)).slice k =
        tb.entityId2Subcriptions.slice k := fun k => congrArg (Option.getD · []) (hindex k)
    refine ⟨hdebug, fun registrationResp hmem => ⟨(hlocal _ hmem).1, fun eid heid => ?_⟩⟩
    exact ⟨(hlocal _ hmem).2 eid heid,
      notMem_of_deleteAll hslice eid (List.mem_flatMap.mpr ⟨registrationResp, hmem, heid⟩)⟩
  · rintro ⟨hdebug, hharmless⟩
    have hnone : ∀ eid ∈ entitiesOf req, mainSubID ∉ tb.entityId2Subcriptions.slice eid.id := by
      intro eid heid
      obtain ⟨registrationResp, hmem, heid⟩ := List.mem_flatMap.mp heid
      exact ((hharmless _ hmem).2 eid heid).2
    have hsame : deleteEntities mainSubID tb (entitiesOf req) = tb := by
      rw [deleteEntities, deleteAll_of_notMem hnone]
      rfl
    rw [handleNGSI9Notify_local hdebug hgone htb
      (fun _ hmem => ⟨(hharmless _ hmem).1, fun eid heid => ((hharmless _ hmem).2 eid heid).1⟩),
      hsame]
    exact ⟨rfl, fun _ => rfl, fun _ => rfl, htb⟩

end Removed

end FogFlow.Broker
