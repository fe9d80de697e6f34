import FogFlow.Broker.Store
import FogFlow.Discovery.Repository
import FogFlow.Library.Execution

namespace FogFlow.Broker.Registration

open Ngsi Discovery Execution Named

-- the broker's entities and discovery's view of them
structure System where
  entities : Entities
  ctxRegistrationList : CtxRegistrationList

def System.initial : System := ⟨∅, ∅⟩

structure Update where
  ctxElem : ContextElement
  attrRank : Nat → String → Nat

def registration (myURL : String) (element : ContextElement) : ContextRegistration where
  entityIdList := [element.entity]
  contextRegistrationAttributes := element.attributes.map (fun item => ⟨item.name, item.type, false⟩)
  metadata := element.metadata
  providingApplication := myURL

def registerContextElement (myURL : String) (element : ContextElement) : RegisterContextRequest :=
  ⟨[registration myURL element], "PT10M", ""⟩

def updateContext2LocalSite (myURL : String) (s : System) (u : Update) : System where
  entities := updateContextElement s.entities u.ctxElem
  ctxRegistrationList :=
    if hasUpdatedMetadata u.ctxElem (s.entities.get u.ctxElem.entity.id) then
      updateRegistration u.attrRank s.ctxRegistrationList (registerContextElement myURL u.ctxElem)
    else s.ctxRegistrationList

def step (myURL : String) (s : System) (u : Update) : Option System :=
  some (updateContext2LocalSite myURL s u)

-- the registered metadata entry has the type and the value of every stored one of its name
def Told (registered : Option ContextMetadata) (stored : List ContextMetadata) : Prop :=
  match registered with
  | none => stored = []
  | some m => stored ≠ [] ∧ ∀ c ∈ stored, c.type = m.type ∧ c.value = m.value

structure Agrees (r : EntityRegistration) (e : ContextElement) : Prop where
  attributes : ∀ n, r.attributesList.get n ≠ none ↔ ∃ a ∈ e.attributes, a.name = n
  metadata : ∀ n, Told (r.metadataList.get n) (entriesOf n e.metadata)

def AgreesOn (eid : String) (s : System) : Prop :=
  match s.ctxRegistrationList.get eid, s.entities.get eid with
  | none, none => True
  | some r, some e => Agrees r e
  | _, _ => False

def Uniform (metadata : List ContextMetadata) : Prop :=
  ∀ m ∈ metadata, ∀ m' ∈ metadata, m.name = m'.name → m.type = m'.type ∧ m.value = m'.value

-- the element names every stored attribute, and its metadata have the types that are stored
structure Covers (cur recv : ContextElement) : Prop where
  attributes : ∀ a ∈ cur.attributes, ∃ b ∈ recv.attributes, b.name = a.name
  metadata : ∀ n last, lastOf n recv.metadata = some last →
    (∀ first, (entriesOf n cur.metadata ++ entriesOf n recv.metadata).head? = some first →
      first.type = last.type) ∧
    ∀ c ∈ (entriesOf n cur.metadata).tail, c.type = last.type ∧ c.value = last.value

def Registers (eid : String) (s : System) (u : Update) : Prop :=
  u.ctxElem.entity.id = eid →
    match s.entities.get eid with
    | none => Uniform u.ctxElem.metadata
    | some cur => hasUpdatedMetadata u.ctxElem (some cur) = true → Covers cur u.ctxElem

theorem names_registration (myURL : String) (element : ContextElement) (n : String) :
    (∃ a ∈ (registration myURL element).contextRegistrationAttributes, a.name = n) ↔
      ∃ a ∈ element.attributes, a.name = n := by
  simp [registration]

theorem told_last_iff {metadata : List ContextMetadata} {n : String} :
    Told (lastOf n metadata) (entriesOf n metadata) ↔
      ∀ last, lastOf n metadata = some last →
        ∀ c ∈ entriesOf n metadata, c.type = last.type ∧ c.value = last.value := by
  unfold Told
  cases h : lastOf n metadata with
  | none => simpa using List.getLast?_eq_none_iff.mp h
  | some last =>
    have hne : entriesOf n metadata ≠ [] := List.ne_nil_of_mem (List.mem_of_getLast? h)
    simp [hne]

theorem uniform_iff_told {metadata : List ContextMetadata} :
    Uniform metadata ↔ ∀ n, Told (lastOf n metadata) (entriesOf n metadata) := by
  simp only [told_last_iff]
  constructor
  · intro h n last hlast c hc
    have hl := mem_named.mp (List.mem_of_getLast? hlast)
    have hc := mem_named.mp hc
    exact h c hc.1 last hl.1 (hc.2.trans hl.2.symm)
  · intro h m hm m' hm' hname
    have hin : m ∈ entriesOf m'.name metadata := mem_named.mpr ⟨hm, hname⟩
    have hin' : m' ∈ entriesOf m'.name metadata := mem_named.mpr ⟨hm', rfl⟩
    obtain ⟨last, hlast⟩ := Option.ne_none_iff_exists'.mp
      (List.getLast?_eq_none_iff.not.mpr (List.ne_nil_of_mem hin))
    obtain ⟨ht, hv⟩ := h _ last hlast m hin
    obtain ⟨ht', hv'⟩ := h _ last hlast m' hin'
    exact ⟨ht.trans ht'.symm, hv.trans hv'.symm⟩

theorem agrees_new_iff {myURL : String} {element : ContextElement} :
    Agrees (entityRegistration element.entity (registration myURL element)) element ↔
      Uniform element.metadata := by
  have hmeta : ∀ n, (setMetadata ∅ element.metadata).get n = lastOf n element.metadata := by
    intro n
    rw [get_setMetadata, GoMap.get_empty, Option.or_none]
    rfl
  rw [uniform_iff_told]
  constructor
  · intro h n
    rw [← hmeta]
    exact h.metadata n
  · intro h
    refine ⟨fun n => ?_, fun n => ?_⟩
    · rw [← names_registration myURL]
      exact get_setAttributes_empty
    · have := h n
      rwa [← hmeta] at this

-- without a change discovery keeps its view, and the broker's facts stay the same
theorem agrees_unchanged {r : EntityRegistration} {cur recv : ContextElement} (h : Agrees r cur)
    (hsame : hasUpdatedMetadata recv (some cur) = false) : Agrees r (applyUpdate cur recv) := by
  obtain ⟨hattrs, hmetas⟩ := hasUpdatedMetadata_eq_false_iff.mp hsame
  refine ⟨fun n => ?_, fun n => ?_⟩
  · have hold : (∃ a ∈ (applyUpdate cur recv).attributes, a.name = n) ↔
        ∃ a ∈ cur.attributes, a.name = n := by
      refine mem_names_updateAttributes.trans ⟨fun hn => hn.elim id ?_, Or.inl⟩
      rintro ⟨a, ha, rfl⟩
      exact hattrs a ha
    rw [h.attributes, hold]
  · have htold := h.metadata n
    cases hlast : lastOf n recv.metadata with
    | none =>
      rwa [entriesOf_applyUpdate_absent cur hlast]
    | some last =>
      obtain ⟨first, hfirst, heq⟩ := entriesOf_applyUpdate cur hlast
      have hl := mem_named.mp (List.mem_of_getLast? hlast)
      obtain ⟨c, hc, hcv⟩ := hmetas last hl.1
      rw [hl.2] at hc
      have hne := List.ne_nil_of_mem hc
      rw [heq]
      cases hreg : r.metadataList.get n with
      | none =>
        rw [hreg] at htold
        exact absurd htold hne
      | some d =>
        rw [hreg] at htold
        obtain ⟨-, hall⟩ := htold
        have hmem : first ∈ entriesOf n cur.metadata := by
          rw [List.head?_append_of_ne_nil _ hne] at hfirst
          exact List.mem_of_head? hfirst
        refine ⟨by simp, fun m hm => ?_⟩
        rcases List.mem_cons.mp hm with rfl | hm
        · exact ⟨(hall first hmem).1, hcv.symm.trans (hall c hc).2⟩
        · exact hall m (List.mem_of_mem_tail hm)

theorem told_applyUpdate_iff {cur recv : ContextElement} {n : String} {last : ContextMetadata}
    (hlast : lastOf n recv.metadata = some last) :
    Told (some last) (entriesOf n (applyUpdate cur recv).metadata) ↔
      (∀ first, (entriesOf n cur.metadata ++ entriesOf n recv.metadata).head? = some first →
        first.type = last.type) ∧
      ∀ c ∈ (entriesOf n cur.metadata).tail, c.type = last.type ∧ c.value = last.value := by
  obtain ⟨first, hfirst, heq⟩ := entriesOf_applyUpdate cur hlast
  simp [Told, heq, hfirst, takeValue]

theorem agrees_registered_iff {myURL : String} {attrRank : String → Nat} {r : EntityRegistration}
    {cur recv : ContextElement} (h : Agrees r cur) (hfiled : Filed r.attributesList) :
    Agrees (updateExisting attrRank r recv.entity (registration myURL recv))
        (applyUpdate cur recv) ↔ Covers cur recv := by
  have hnames : ∀ n, (updateExisting attrRank r recv.entity
      (registration myURL recv)).attributesList.get n ≠ none ↔ ∃ a ∈ recv.attributes, a.name = n :=
    fun n => (names_updateExisting hfiled n).trans (names_registration myURL recv n)
  have hstored : ∀ n, (∃ a ∈ (applyUpdate cur recv).attributes, a.name = n) ↔
      (∃ a ∈ cur.attributes, a.name = n) ∨ ∃ a ∈ recv.attributes, a.name = n :=
    fun n => mem_names_updateAttributes
  have hmeta : ∀ n, (updateExisting attrRank r recv.entity
      (registration myURL recv)).metadataList.get n =
        (lastOf n recv.metadata).or (r.metadataList.get n) :=
    fun n => get_setMetadata _ _ n
  constructor
  · intro ha
    constructor
    · intro a hin
      exact (hnames a.name).mp ((ha.attributes a.name).mpr ((hstored _).mpr (Or.inl ⟨a, hin, rfl⟩)))
    · intro n last hlast
      have htold := ha.metadata n
      rw [hmeta, hlast, Option.some_or] at htold
      exact (told_applyUpdate_iff hlast).mp htold
  · intro hc
    refine ⟨fun n => ?_, fun n => ?_⟩
    · rw [hnames, hstored]
      refine ⟨Or.inr, fun hn => hn.elim ?_ id⟩
      rintro ⟨a, hin, rfl⟩
      exact hc.attributes a hin
    · rw [hmeta]
      cases hlast : lastOf n recv.metadata with
      | none =>
        rw [Option.none_or, entriesOf_applyUpdate_absent cur hlast]
        exact h.metadata n
      | some last =>
        rw [Option.some_or]
        exact (told_applyUpdate_iff hlast).mpr (hc.metadata n last hlast)

def AllFiled (list : CtxRegistrationList) : Prop :=
  ∀ eid r, list.get eid = some r → Filed r.attributesList

theorem get_updateContext2LocalSite (myURL : String) (s : System) (u : Update) (eid : String) :
    (updateContext2LocalSite myURL s u).ctxRegistrationList.get eid =
      if eid = u.ctxElem.entity.id ∧
          hasUpdatedMetadata u.ctxElem (s.entities.get u.ctxElem.entity.id) = true then
        some (((s.ctxRegistrationList.get u.ctxElem.entity.id).map
          (updateExisting (u.attrRank 0) · u.ctxElem.entity (registration myURL u.ctxElem))).getD
          (entityRegistration u.ctxElem.entity (registration myURL u.ctxElem)))
      else s.ctxRegistrationList.get eid := by
  have hone : updateRegistration u.attrRank s.ctxRegistrationList
      (registerContextElement myURL u.ctxElem) =
        updateRegistrationInMemory (u.attrRank 0) s.ctxRegistrationList u.ctxElem.entity
          (registration myURL u.ctxElem) := rfl
  unfold updateContext2LocalSite
  dsimp only
  cases hasUpdatedMetadata u.ctxElem (s.entities.get u.ctxElem.entity.id) with
  | false => simp
  | true => simp only [if_true, hone, get_updateRegistrationInMemory, and_true]

theorem allFiled_step {myURL : String} {s t : System} {u : Update}
    (h : AllFiled s.ctxRegistrationList) (hs : step myURL s u = some t) :
    AllFiled t.ctxRegistrationList := by
  obtain rfl := Option.some.inj hs
  intro eid r hr
  rw [get_updateContext2LocalSite] at hr
  split_ifs at hr
  · rw [← Option.some.inj hr]
    cases hold : s.ctxRegistrationList.get u.ctxElem.entity.id with
    | none => exact filed_setAttributes filed_empty _
    | some old => exact filed_updateExisting (h _ old hold)
  · exact h eid r hr

-- the condition on the update is exact at every single step
theorem agreesOn_step_iff {myURL eid : String} {s t : System} {u : Update} (h : AgreesOn eid s)
    (hfiled : AllFiled s.ctxRegistrationList) (hs : step myURL s u = some t) :
    Registers eid s u ↔ AgreesOn eid t := by
  obtain rfl := Option.some.inj hs
  have hent : (updateContext2LocalSite myURL s u).entities.get eid =
      if eid = u.ctxElem.entity.id then
        some (((s.entities.get u.ctxElem.entity.id).map (applyUpdate · u.ctxElem)).getD u.ctxElem)
      else s.entities.get eid := get_updateContextElement _ _ _
  unfold AgreesOn
  rw [hent, get_updateContext2LocalSite]
  by_cases heid : u.ctxElem.entity.id = eid
  · subst heid
    simp only [Registers, true_and, if_true, forall_const]
    unfold AgreesOn at h
    cases hcur : s.entities.get u.ctxElem.entity.id with
    | none =>
      cases hreg : s.ctxRegistrationList.get u.ctxElem.entity.id with
      | some r => simp [hcur, hreg] at h
      | none => exact agrees_new_iff.symm
    | some cur =>
      cases hreg : s.ctxRegistrationList.get u.ctxElem.entity.id with
      | none => simp [hcur, hreg] at h
      | some r =>
        simp only [hcur, hreg] at h
        cases hup : hasUpdatedMetadata u.ctxElem (some cur) with
        | false =>
          simp only [hup, Bool.false_eq_true, false_implies, if_false, Option.map_some,
            Option.getD_some, true_iff]
          exact agrees_unchanged h hup
        | true =>
          simp only [hup, if_true, forall_const, Option.map_some, Option.getD_some]
          exact (agrees_registered_iff h (hfiled _ r hreg)).symm
  · have hne : ¬ eid = u.ctxElem.entity.id := fun he => heid he.symm
    simp only [Registers, heid, hne, false_and, if_false, false_implies, true_iff]
    exact h

def AlwaysAgrees (myURL : String) : Prop :=
  ∀ eid updates s, exec (step myURL) .initial updates = some s →
    Always (step myURL) (AgreesOn eid) .initial updates

def exampleUpdate (names : List String) (metadata : List ContextMetadata) : Update :=
  ⟨⟨⟨"Room", false, "room1"⟩, "", names.map (fun n => ⟨n, "number", .number 1, []⟩), metadata⟩,
    fun _ _ => 0⟩

def partialUpdates : List Update :=
  [exampleUpdate ["temperature"] [], exampleUpdate ["humidity"] []]

def located (p : Point) : ContextMetadata := ⟨"location", "point", .point p, .null⟩

def firstUpdate : Update := exampleUpdate ["temperature"] [located ⟨1, 2⟩]

def wholeUpdate : Update := exampleUpdate ["temperature", "humidity"] [located ⟨3, 4⟩]

theorem covers_wholeUpdate : Covers firstUpdate.ctxElem wholeUpdate.ctxElem := by
  constructor
  · simp [firstUpdate, wholeUpdate, exampleUpdate]
  · intro n last hlast
    have hname : lastOf n [located ⟨3, 4⟩] = some last := hlast
    by_cases hn : n = "location"
    · subst hn
      obtain rfl : located ⟨3, 4⟩ = last := Option.some.inj hname
      refine ⟨fun first hfirst => ?_, fun c hc => ?_⟩
      · obtain rfl : located ⟨1, 2⟩ = first := Option.some.inj hfirst
        rfl
      · cases hc
    · have hnone : lastOf n [located ⟨3, 4⟩] = none := by
        simp [lastOf, entriesOf, named_singleton, located, Ne.symm hn]
      rw [hnone] at hname
      cases hname

end FogFlow.Broker.Registration
