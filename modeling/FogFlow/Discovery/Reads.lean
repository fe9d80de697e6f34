import FogFlow.Discovery.Query
import FogFlow.Discovery.Requests

namespace FogFlow.Discovery.Reads

open Ngsi Loop Execution
open Requests (Request Operation operationsOf)

def fiwareId (id : String) : String × String :=
  if '@' ∈ id.toList then ((strSplit id "@").getD 0 "", (strSplit id "@").getD 1 "")
  else (id, "default")

def newEid (eid service : String) : String :=
  if service ≠ "" then eid ++ "@" ++ service else eid ++ "@" ++ "default"

-- registrations live at addresses, and a read that shortens the id of one holds its pointer
structure System where
  objects : Nat → EntityRegistration
  fresh : Nat
  ctxRegistrationList : GoMap Nat
  running : List (List Operation)
  reading : List Nat

def System.init : System := ⟨fun _ => ⟨"", "", ∅, ∅, ""⟩, 0, ∅, [], []⟩

def System.repository (s : System) : CtxRegistrationList := s.ctxRegistrationList.map s.objects

def System.updateRegistration (s : System) (attrRank : String → Nat) (entity : EntityId)
    (registration : ContextRegistration) : System :=
  match s.ctxRegistrationList.get entity.id with
  | some address => { s with
      objects := Function.update s.objects address
        (updateExisting attrRank (s.objects address) entity registration) }
  | none => { s with
      objects := Function.update s.objects s.fresh (entityRegistration entity registration)
      fresh := s.fresh + 1
      ctxRegistrationList := s.ctxRegistrationList.set entity.id s.fresh }

def perform (attrRank : String → Nat) (s : System) : Operation → System × List Operation
  | .updateEntity entity registration => (s.updateRegistration attrRank entity registration, [])
  | .deleteRegistration eid =>
      (s, if (s.ctxRegistrationList.get eid).isSome then [.deleteEntity eid] else [])
  | .deleteEntity eid => ({ s with ctxRegistrationList := s.ctxRegistrationList.delete eid }, [])

structure Query where
  rank : String → Nat
  metaRank : String → MetaRank
  entities : List EntityId
  attributes : List String
  restriction : Restriction

inductive Label where
  | send (request : Request)
  | run (n : Nat) (attrRank : String → Nat)
  | getRegisteredEntity (eid : String)
  | getRegisteredLDEntity (eid service : String)
  | shortenID (n : Nat)
  | query (q : Query)

def Label.isRead : Label → Bool
  | .send _ | .run _ _ => false
  | _ => true

def Label.isLD : Label → Bool
  | .getRegisteredLDEntity .. | .shortenID _ => true
  | _ => false

def shortened (registration : EntityRegistration) : EntityRegistration :=
  { registration with id := (fiwareId registration.id).1 }

-- a panic ends the request only, since the server recovers it
def step (s : System) : Label → Option System
  | .send request => some { s with running := s.running ++ [operationsOf request] }
  | .run n attrRank =>
      match s.running[n]? with
      | some (operation :: rest) =>
          let done := perform attrRank s operation
          some { done.1 with running := s.running.set n (done.2 ++ rest) }
      | _ => none
  | .getRegisteredEntity _ => some s
  | .getRegisteredLDEntity eid service =>
      match s.ctxRegistrationList.get (newEid eid service) with
      | some address => some { s with reading := s.reading ++ [address] }
      | none => some s
  | .shortenID n =>
      match s.reading[n]? with
      | some address => some { s with
          objects := Function.update s.objects address (shortened (s.objects address))
          reading := s.reading.eraseIdx n }
      | none => none
  | .query _ => some s

inductive Answer where
  | pending
  | registration (registration : Option EntityRegistration)
  | entityMap (entityMap : GoMap (List EntityId))

variable (math : FloatMath) (matchString : MatchString)

def answer (s : System) : Label → Except Fault Answer
  | .getRegisteredEntity eid => .ok (.registration (s.repository.get eid))
  | .getRegisteredLDEntity eid service => do
      let _ ← deref (s.repository.get (newEid eid service))
      .ok .pending
  | .shortenID n =>
      .ok (.registration ((s.reading[n]?).map (fun address => shortened (s.objects address))))
  | .query q => do
      let entityMap ← queryEntities math matchString q.rank q.metaRank s.repository q.entities
        q.attributes q.restriction
      .ok (.entityMap entityMap)
  | _ => .ok .pending

structure KeyedEntry (eid : String) (registration : EntityRegistration) : Prop where
  id : registration.id = eid
  attributes : Filed registration.attributesList
  metadata : ∀ name metadata, registration.metadataList.get name = some metadata →
    metadata.name = name

def Keyed (s : System) : Prop :=
  ∀ eid registration, s.repository.get eid = some registration → KeyedEntry eid registration

def ReadsOnly (s : System) (label : Label) : Prop :=
  label.isRead = true → answer math matchString s label ≠ .error .nilDereference ∧
    ∀ t, step s label = some t → ∀ eid, t.repository.get eid = s.repository.get eid

-- a read of the NGSI-LD interface finds its entity, which is gone when the id is shortened
def LeavesEntries (s : System) : Label → Prop
  | .getRegisteredLDEntity eid service =>
      (s.ctxRegistrationList.get (newEid eid service)).isSome
  | .shortenID n => ∀ address, s.reading[n]? = some address →
      ∀ eid, s.ctxRegistrationList.get eid ≠ some address
  | _ => True

structure Sound (s : System) : Prop where
  keyed : Keyed s
  below : ∀ eid address, s.ctxRegistrationList.get eid = some address → address < s.fresh
  held : ∀ address ∈ s.reading, address < s.fresh ∧
    ∀ eid, s.ctxRegistrationList.get eid = some address → '@' ∈ eid.toList

variable {math matchString} {s t : System}

theorem get_repository (s : System) (eid : String) :
    s.repository.get eid = (s.ctxRegistrationList.get eid).map s.objects :=
  GoMap.get_map s.objects s.ctxRegistrationList eid

theorem at_sign_mem_newEid (eid service : String) : '@' ∈ (newEid eid service).toList := by
  rw [newEid]
  split_ifs <;> simp

theorem fiwareId_ne {id : String} (h : '@' ∈ id.toList) : (fiwareId id).1 ≠ id := by
  intro heq
  rw [fiwareId, if_pos h] at heq
  cases hfields : Split.split ['@'] id.toList with
  | nil => exact Split.split_ne_nil hfields
  | cons first rest =>
    have hfirst : '@' ∉ first := Split.notMem_of_mem_split (by rw [hfields]; simp)
    have hid : String.ofList first = id := by
      simpa [strSplit, hfields] using heq
    rw [← hid] at h
    exact hfirst (by simpa using h)

theorem keyed_setMetadata {list : GoMap ContextMetadata} (metas : List ContextMetadata)
    (h : ∀ name metadata, list.get name = some metadata → metadata.name = name) (name : String)
    (metadata : ContextMetadata) (hget : (setMetadata list metas).get name = some metadata) :
    metadata.name = name := by
  rw [get_setMetadata] at hget
  cases hlast : (Named.named ContextMetadata.name name metas).getLast? with
  | none =>
    rw [hlast] at hget
    exact h name metadata hget
  | some last =>
    rw [hlast] at hget
    rw [← Option.some.inj hget]
    exact (Named.mem_named.mp (List.mem_of_getLast? hlast)).2

theorem keyedEntry_entityRegistration (entity : EntityId) (registration : ContextRegistration) :
    KeyedEntry entity.id (entityRegistration entity registration) :=
  ⟨rfl, filed_setAttributes filed_empty _, keyed_setMetadata _ (by simp)⟩

theorem keyedEntry_updateExisting {eid : String} {r : EntityRegistration} (h : KeyedEntry eid r)
    (attrRank : String → Nat) (entity : EntityId) (registration : ContextRegistration) :
    KeyedEntry eid (updateExisting attrRank r entity registration) :=
  ⟨h.id, filed_updateExisting h.attributes, keyed_setMetadata _ h.metadata⟩

theorem keyed_iff : Keyed s ↔ ∀ eid address, s.ctxRegistrationList.get eid = some address →
    KeyedEntry eid (s.objects address) := by
  constructor
  · intro h eid address haddress
    exact h eid _ (by rw [get_repository, haddress]; rfl)
  · intro h eid registration hget
    rw [get_repository, Option.map_eq_some_iff] at hget
    obtain ⟨address, haddress, rfl⟩ := hget
    exact h eid address haddress

-- an entry has its own id, so two entries never share an address
theorem Keyed.injective (h : Keyed s) {eid eid' : String} {address : Nat}
    (hget : s.ctxRegistrationList.get eid = some address)
    (hget' : s.ctxRegistrationList.get eid' = some address) : eid = eid' :=
  (keyed_iff.mp h eid address hget).id.symm.trans (keyed_iff.mp h eid' address hget').id

theorem sound_init : Sound System.init :=
  ⟨keyed_iff.mpr (by simp [System.init]), by simp [System.init], by simp [System.init]⟩

theorem Sound.updateRegistration (h : Sound s) (attrRank : String → Nat) (entity : EntityId)
    (registration : ContextRegistration) :
    Sound (s.updateRegistration attrRank entity registration) := by
  have hkeyed := keyed_iff.mp h.keyed
  unfold System.updateRegistration
  cases haddress : s.ctxRegistrationList.get entity.id with
  | some address =>
    refine ⟨keyed_iff.mpr (fun eid address' hget => ?_), h.below, h.held⟩
    dsimp only
    by_cases hsame : address' = address
    · rw [hsame] at hget ⊢
      rw [Function.update_self]
      exact keyedEntry_updateExisting (hkeyed eid address hget) attrRank entity registration
    · rw [Function.update_of_ne hsame]
      exact hkeyed eid address' hget
  | none =>
    refine ⟨keyed_iff.mpr (fun eid address hget => ?_), fun eid address hget => ?_,
      fun address hheld => ⟨?_, fun eid hget => ?_⟩⟩
    · dsimp only at hget ⊢
      rw [GoMap.get_set] at hget
      split_ifs at hget with heid
      · rw [← Option.some.inj hget, Function.update_self, heid]
        exact keyedEntry_entityRegistration entity registration
      · have hlt := h.below eid address hget
        rw [Function.update_of_ne (by omega)]
        exact hkeyed eid address hget
    · dsimp only at hget ⊢
      rw [GoMap.get_set] at hget
      split_ifs at hget
      · have heq := Option.some.inj hget
        omega
      · have hlt := h.below eid address hget
        omega
    · have hlt := (h.held address hheld).1
      dsimp only
      omega
    · dsimp only at hget
      rw [GoMap.get_set] at hget
      split_ifs at hget
      · have hlt := (h.held address hheld).1
        have heq := Option.some.inj hget
        omega
      · exact (h.held address hheld).2 eid hget

theorem Sound.delete (h : Sound s) (eid : String) :
    Sound { s with ctxRegistrationList := s.ctxRegistrationList.delete eid } := by
  have hget {k : String} {address : Nat} (hk : (s.ctxRegistrationList.delete eid).get k =
      some address) : s.ctxRegistrationList.get k = some address := (GoMap.get_of_get_delete hk).2
  exact ⟨keyed_iff.mpr (fun k address hk => keyed_iff.mp h.keyed k address (hget hk)),
    fun k address hk => h.below k address (hget hk),
    fun address hheld => ⟨(h.held address hheld).1,
      fun k hk => (h.held address hheld).2 k (hget hk)⟩⟩

theorem Sound.running (h : Sound s) (running : List (List Operation)) :
    Sound { s with running := running } := ⟨h.keyed, h.below, h.held⟩

theorem Sound.perform (h : Sound s) (attrRank : String → Nat) (operation : Operation) :
    Sound (perform attrRank s operation).1 := by
  cases operation with
  | updateEntity entity registration => exact h.updateRegistration attrRank entity registration
  | deleteRegistration eid => exact h
  | deleteEntity eid => exact h.delete eid

theorem Sound.retrieve (h : Sound s) {eid service : String} {address : Nat}
    (hget : s.ctxRegistrationList.get (newEid eid service) = some address) :
    Sound { s with reading := s.reading ++ [address] } := by
  refine ⟨h.keyed, h.below, fun address' hheld => ?_⟩
  rcases List.mem_append.mp hheld with hheld | hlast
  · exact h.held address' hheld
  · rw [List.mem_singleton.mp hlast]
    refine ⟨h.below _ _ hget, fun eid' hget' => ?_⟩
    rw [← h.keyed.injective hget hget']
    exact at_sign_mem_newEid eid service

theorem Sound.shorten (h : Sound s) {address n : Nat}
    (hgone : ∀ eid, s.ctxRegistrationList.get eid ≠ some address) :
    Sound { s with
      objects := Function.update s.objects address (shortened (s.objects address))
      reading := s.reading.eraseIdx n } := by
  refine ⟨keyed_iff.mpr (fun eid address' hget => ?_), h.below, fun address' hheld =>
    h.held address' (List.mem_of_mem_eraseIdx hheld)⟩
  have hne : address' ≠ address := by
    rintro rfl
    exact hgone eid hget
  dsimp only
  rw [Function.update_of_ne hne]
  exact keyed_iff.mp h.keyed eid address' hget

theorem Sound.step (h : Sound s) {label : Label} (hc : LeavesEntries s label)
    (ht : step s label = some t) : Sound t := by
  cases label with
  | send request =>
    rw [← Option.some.inj ht]
    exact h.running _
  | run n attrRank =>
    simp only [Reads.step] at ht
    split at ht
    next operation rest _ =>
      rw [← Option.some.inj ht]
      exact (h.perform attrRank operation).running _
    next => cases ht
  | getRegisteredEntity eid =>
    rw [← Option.some.inj ht]
    exact h
  | getRegisteredLDEntity eid service =>
    obtain ⟨address, haddress⟩ := Option.isSome_iff_exists.mp hc
    simp only [Reads.step, haddress] at ht
    rw [← Option.some.inj ht]
    exact h.retrieve haddress
  | shortenID n =>
    simp only [Reads.step] at ht
    split at ht
    next address haddress =>
      rw [← Option.some.inj ht]
      exact h.shorten (hc address haddress)
    next => cases ht
  | query q =>
    rw [← Option.some.inj ht]
    exact h

section Queries

theorem asFloat_avoids (v : Value) : Avoids .nilDereference (asFloat v) := by
  cases v <;> simp [asFloat, Avoids]

theorem asSlice_avoids (v : Value) : Avoids .nilDereference (Discovery.asSlice v) := by
  cases v <;> simp [Discovery.asSlice, Avoids]

theorem asString_avoids (v : Value) : Avoids .nilDereference (Discovery.asString v) := by
  cases v <;> simp [Discovery.asString, Avoids]

theorem asPoint_avoids (v : Value) : Avoids .nilDereference (asPoint v) := by
  cases v <;> simp [asPoint, Avoids]

theorem asCircle_avoids (v : Value) : Avoids .nilDereference (asCircle v) := by
  cases v <;> simp [asCircle, Avoids]

theorem asPolygon_avoids (v : Value) : Avoids .nilDereference (asPolygon v) := by
  cases v <;> simp [asPolygon, Avoids]

theorem asNearBy_avoids (v : Value) : Avoids .nilDereference (asNearBy v) := by
  cases v <;> simp [asNearBy, Avoids]

theorem index_avoids {α : Type} (items : List α) (i : Nat) :
    Avoids .nilDereference (index items i) := by
  unfold index
  split <;> simp [Avoids]

theorem firstTwo_avoids (items : List Value) : Avoids .nilDereference (firstTwo items) := by
  refine avoids_bind (avoids_bind (index_avoids _ _) (fun _ _ => asFloat_avoids _)) (fun _ _ => ?_)
  exact avoids_bind (avoids_bind (index_avoids _ _) (fun _ _ => asFloat_avoids _))
    (fun _ _ => avoids_ok _ _)

theorem raycast_avoids (point : Point) (vertices : List Point) :
    Avoids .nilDereference (raycast math point vertices) := by
  unfold raycast
  split <;> simp [Avoids]

theorem convertInStructure_avoids (coor : Value) :
    Avoids .nilDereference (convertInStructure coor) := by
  refine avoids_bind (asSlice_avoids _) (fun items _ => ?_)
  refine foldlM_avoids (I := fun _ _ => True) trivial (fun _ val _ _ _ _ => ⟨?_, by simp⟩)
  exact avoids_bind (avoids_bind (asSlice_avoids _) (fun _ _ => firstTwo_avoids _))
    (fun _ _ => avoids_ok _ _)

theorem convertRings_avoids (polygon : Value) : Avoids .nilDereference (convertRings polygon) := by
  unfold convertRings
  split_ifs
  · exact avoids_ok _ _
  · refine avoids_bind (asSlice_avoids _) (fun rings _ => ?_)
    exact foldlM_avoids (I := fun _ _ => True) trivial
      (fun _ val _ _ _ _ => ⟨convertInStructure_avoids val, by simp⟩)

theorem commonConverter_avoids (entityP queryP : Value) :
    Avoids .nilDereference (commonConverter entityP queryP) :=
  avoids_bind (convertRings_avoids _) (fun _ _ =>
    avoids_bind (convertRings_avoids _) (fun _ _ => avoids_ok _ _))

theorem findDistForPolygon_avoids (typ : String) (metaData : Value) (res : Restriction) :
    Avoids .nilDereference (findDistForPolygon math typ metaData res) := by
  unfold findDistForPolygon
  dsimp only
  split_ifs
  · exact avoids_bind (by simp [asGeoPoint, Avoids]) (fun _ _ =>
      avoids_bind (commonConverter_avoids _ _) (fun _ _ => raycast_avoids _ _))
  · refine avoids_bind (commonConverter_avoids _ _) (fun _ _ => ?_)
    dsimp only
    split_ifs <;> exact avoids_ok _ _
  · refine avoids_bind (commonConverter_avoids _ _) (fun _ _ => ?_)
    exact allM_avoids (fun _ _ => avoids_bind (raycast_avoids _ _) (fun _ _ => avoids_ok _ _))
  · refine avoids_bind (commonConverter_avoids _ _) (fun _ _ => ?_)
    exact allM_avoids (fun _ _ => raycast_avoids _ _)
  · refine avoids_bind (commonConverter_avoids _ _) (fun _ _ => ?_)
    exact allM_avoids (fun _ _ => raycast_avoids _ _)
  · exact avoids_ok _ _
  · exact avoids_ok _ _

theorem findDistForPoint_avoids (typ : String) (metaData loc : Value) :
    Avoids .nilDereference (findDistForPoint math typ metaData loc) := by
  have hpoint : Avoids .nilDereference (entityPoint metaData) := by
    unfold entityPoint
    split
    · split_ifs
      · exact firstTwo_avoids _
      · exact avoids_ok _ _
    · exact avoids_ok _ _
    · exact avoids_ok _ _
  unfold findDistForPoint distForPoint
  split_ifs with htyp
  · refine avoids_bind hpoint (fun _ _ => ?_)
    exact avoids_bind (asSlice_avoids _) (fun _ _ =>
      avoids_bind (firstTwo_avoids _) (fun _ _ => avoids_ok _ _))
  · exact avoids_ok _ _

theorem matchDistance_avoids (distMi : math.float64) (contrains : List String) :
    Avoids .nilDereference (matchDistance math distMi contrains) := by
  unfold matchDistance
  split
  · refine avoids_bind (index_avoids _ _) (fun _ _ => ?_)
    split_ifs
    · exact avoids_bind (index_avoids _ _) (fun _ _ => avoids_ok _ _)
    · exact avoids_bind (index_avoids _ _) (fun _ _ => avoids_ok _ _)
    · exact avoids_ok _ _
  · exact avoids_ok _ _

theorem matchLdMetadatas_avoids (metadatas : GoMap ContextMetadata) (restriction : Restriction) :
    Avoids .nilDereference (matchLdMetadatas math metadatas restriction) := by
  unfold matchLdMetadatas
  split_ifs
  · exact avoids_ok _ _
  · exact avoids_ok _ _
  · exact avoids_bind (findDistForPoint_avoids _ _ _) (fun _ _ => matchDistance_avoids _ _)
  · exact findDistForPolygon_avoids _ _ _
  · exact avoids_ok _ _

theorem matchConstraint_avoids (metas : List ContextMetadata) (constraint : String) :
    Avoids .nilDereference (matchConstraint metas constraint) := by
  refine avoids_bind (index_avoids _ _) (fun _ _ => avoids_bind (index_avoids _ _) (fun _ _ => ?_))
  refine avoids_bind (allM_avoids (fun metadata _ => ?_)) (fun _ _ => avoids_ok _ _)
  split_ifs
  · rw [goEq_string]
    exact avoids_ok _ _
  · exact avoids_ok _ _

theorem matchScope_avoids (metaRank : Nat → String → Nat) (metadatas : GoMap ContextMetadata)
    (scope : OperationScope) : Avoids .nilDereference (matchScope math metaRank metadatas scope) := by
  unfold matchScope
  split_ifs
  · refine allM_avoids (fun metadata _ => ?_)
    split_ifs
    · exact avoids_bind (asPoint_avoids _) (fun _ _ =>
        avoids_bind (asCircle_avoids _) (fun _ _ => avoids_ok _ _))
    · exact avoids_ok _ _
  · refine allM_avoids (fun metadata _ => ?_)
    split_ifs
    · exact avoids_bind (asPoint_avoids _) (fun _ _ =>
        avoids_bind (asPolygon_avoids _) (fun _ _ => raycast_avoids _ _))
    · exact avoids_ok _ _
  · exact avoids_bind (asString_avoids _) (fun _ _ =>
      allM_avoids (fun _ _ => matchConstraint_avoids _ _))
  · exact avoids_ok _ _

theorem matchingWithFilters_avoids (metaRank : MetaRank) (registration : EntityRegistration)
    (idFilter : List EntityId) (attrFilter : List String) (metaFilter : Restriction) :
    Avoids .nilDereference (matchingWithFilters math matchString metaRank registration idFilter
      attrFilter metaFilter) := by
  unfold matchingWithFilters
  split_ifs
  · exact avoids_ok _ _
  · exact avoids_ok _ _
  · exact matchLdMetadatas_avoids _ _
  · exact allM_avoids (fun _ _ => matchScope_avoids _ _ _)

theorem toCandidate_avoids (nearby : Option NearBy) (registration : EntityRegistration) :
    Avoids .nilDereference (toCandidate math nearby registration) := by
  have hlocation : Avoids .nilDereference registration.getLocation := by
    unfold EntityRegistration.getLocation
    split
    · split <;> simp [Avoids]
    · exact avoids_ok _ _
  unfold toCandidate
  split
  · exact avoids_bind hlocation (fun _ _ => avoids_ok _ _)
  · exact avoids_ok _ _

theorem candidateOf_avoids (metaRank : MetaRank) (nearby : Option NearBy)
    (entities : List EntityId) (attributes : List String) (restriction : Restriction)
    (registration : EntityRegistration) :
    Avoids .nilDereference (candidateOf math matchString metaRank nearby entities attributes
      restriction registration) := by
  refine avoids_bind (matchingWithFilters_avoids _ _ _ _ _) (fun _ _ => ?_)
  split_ifs
  · exact avoids_bind (toCandidate_avoids _ _) (fun _ _ => avoids_ok _ _)
  · exact avoids_ok _ _

-- the list of registrations holds no nil pointer, so no filter meets one
theorem queryEntities_avoids (q : Query) (list : CtxRegistrationList) :
    Avoids .nilDereference (queryEntities math matchString q.rank q.metaRank list q.entities
      q.attributes q.restriction) := by
  have hnearby : Avoids .nilDereference (getNearbyFilter q.restriction) := by
    unfold getNearbyFilter
    split
    · exact avoids_bind (asNearBy_avoids _) (fun _ _ => avoids_ok _ _)
    · exact avoids_ok _ _
  refine avoids_bind hnearby (fun nearby _ => avoids_bind ?_ (fun candidates _ => ?_))
  · refine foldlM_avoids (I := fun _ _ => True) trivial (fun _ _ _ _ _ _ => ⟨?_, by simp⟩)
    exact avoids_bind (candidateOf_avoids _ _ _ _ _ _) (fun _ _ => avoids_ok _ _)
  · refine avoids_bind ?_ (fun _ _ => avoids_ok _ _)
    unfold closest
    split
    · split_ifs <;> simp [Avoids]
    · exact avoids_ok _ _

end Queries

theorem shorten_changes (h : Sound s) {n address : Nat} {eid : String}
    (hheld : s.reading[n]? = some address) (hget : s.ctxRegistrationList.get eid = some address)
    (ht : step s (.shortenID n) = some t) : t.repository.get eid ≠ s.repository.get eid := by
  simp only [step, hheld] at ht
  rw [← Option.some.inj ht, get_repository, get_repository]
  dsimp only
  rw [hget, Option.map_some, Option.map_some, Function.update_self]
  intro heq
  have hat := (h.held address (List.mem_of_getElem? hheld)).2 eid hget
  have hid : (s.objects address).id = eid := (keyed_iff.mp h.keyed eid address hget).id
  rw [← hid] at hat
  exact fiwareId_ne hat (congrArg EntityRegistration.id (Option.some.inj heq))

theorem readsOnly_iff (h : Sound s) (label : Label) :
    ReadsOnly math matchString s label ↔ LeavesEntries s label := by
  cases label with
  | send request => exact iff_of_true (fun hread => absurd hread Bool.false_ne_true) trivial
  | run n attrRank => exact iff_of_true (fun hread => absurd hread Bool.false_ne_true) trivial
  | getRegisteredEntity eid =>
    refine iff_of_true (fun _ => ⟨by simp [answer], fun t ht eid => ?_⟩) trivial
    rw [← Option.some.inj ht]
  | getRegisteredLDEntity eid service =>
    cases hget : s.ctxRegistrationList.get (newEid eid service) with
    | none =>
      refine iff_of_false (fun hreads => (hreads rfl).1 ?_) (by simp [LeavesEntries, hget])
      rw [answer, get_repository, hget]
      rfl
    | some address =>
      refine iff_of_true (fun _ => ⟨?_, fun t ht eid' => ?_⟩) (by simp [LeavesEntries, hget])
      · rw [answer, get_repository, hget]
        simp [deref]
      · simp only [step, hget] at ht
        rw [← Option.some.inj ht, get_repository, get_repository]
  | shortenID n =>
    constructor
    · intro hreads address hheld eid hget
      have hstep : step s (.shortenID n) = some { s with
          objects := Function.update s.objects address (shortened (s.objects address))
          reading := s.reading.eraseIdx n } := by
        simp only [step, hheld]
      exact shorten_changes h hheld hget hstep ((hreads rfl).2 _ hstep eid)
    · intro hgone _
      refine ⟨by simp [answer], fun t ht eid => ?_⟩
      simp only [step] at ht
      split at ht
      next address hheld =>
        rw [← Option.some.inj ht, get_repository, get_repository]
        dsimp only
        cases hget : s.ctxRegistrationList.get eid with
        | none => rfl
        | some address' =>
          have hne : address' ≠ address := by
            rintro rfl
            exact hgone address' hheld eid hget
          rw [Option.map_some, Option.map_some, Function.update_of_ne hne]
      next => cases ht
  | query q =>
    refine iff_of_true (fun _ => ⟨?_, fun t ht eid => ?_⟩) trivial
    · exact avoids_bind (queryEntities_avoids q s.repository) (fun _ _ => avoids_ok _ _)
    · rw [← Option.some.inj ht]

theorem reads_keep_repository_iff {is : List Label} (hrun : exec step System.init is = some s) :
    (Always step Keyed System.init is ∧ Meets step (ReadsOnly math matchString) System.init is) ↔
      Meets step LeavesEntries System.init is := by
  have hiff : Meets step (ReadsOnly math matchString) System.init is ↔
      Meets step LeavesEntries System.init is :=
    meets_congr (P := Sound) hrun sound_init (fun _ label _ hs _ => readsOnly_iff hs label)
      (fun _ _ _ hs hc ht => hs.step hc ht)
  rw [hiff]
  constructor
  · exact fun h => h.2
  · intro hmeets
    refine ⟨?_, hmeets⟩
    exact always_of_meets (I := fun _ s => Sound s) hmeets sound_init
      (fun _ _ _ _ _ _ hs hc ht => hs.step hc ht) (fun _ _ hs => hs.keyed)

def carRegistration : Request :=
  .registerContext ⟨[⟨[⟨"Car", false, "car1@default"⟩], [], [], "http://broker"⟩], "", ""⟩

-- a read of one entity, a query and a deletion, none of them through the NGSI-LD interface
def plainReads : List Label :=
  [.send carRegistration, .run 0 (fun _ => 0), .getRegisteredEntity "car1@default",
    .query ⟨fun _ => 0, fun _ _ _ _ => 0, [], [], .zero⟩,
    .send (.deleteRegisteredEntity "car1@default"), .run 1 (fun _ => 0), .run 1 (fun _ => 0),
    .getRegisteredEntity "car1@default"]

theorem plainReads_keep_repository :
    ∃ s, exec step System.init plainReads = some s ∧
      Always step Keyed System.init plainReads ∧
      Meets step (ReadsOnly exampleMath (fun _ _ => false)) System.init plainReads := by
  obtain ⟨s, hs⟩ : ∃ s, exec step System.init plainReads = some s := ⟨_, rfl⟩
  refine ⟨s, hs, (reads_keep_repository_iff hs).mpr ?_⟩
  refine meets_of_check (c := fun _ label => !label.isLD) (fun s label _ hc => ?_) (by rfl)
  cases label with
  | getRegisteredLDEntity eid service => cases hc
  | shortenID n => cases hc
  | _ => trivial

def ldRead : List Label :=
  [.send carRegistration, .run 0 (fun _ => 0), .getRegisteredLDEntity "car1" "", .shortenID 0]

theorem ldRead_breaks_repository :
    (∃ s, exec step System.init ldRead = some s ∧ ¬ Keyed s) ∧
      answer exampleMath (fun _ _ => false) System.init (.getRegisteredLDEntity "car2" "") =
        .error .nilDereference := by
  refine ⟨?_, rfl⟩
  have hread : (exec step System.init ldRead).map (fun s =>
      (s.repository.get "car1@default").map EntityRegistration.id) = some (some "car1") := by
    decide
  obtain ⟨s, hs, hget⟩ := Option.map_eq_some_iff.mp hread
  obtain ⟨registration, hregistration, hid⟩ := Option.map_eq_some_iff.mp hget
  refine ⟨s, hs, fun hkeyed => ?_⟩
  have hkey := (hkeyed "car1@default" registration hregistration).id
  rw [hid] at hkey
  exact absurd hkey (by decide)

end FogFlow.Discovery.Reads
