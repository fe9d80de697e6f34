import FogFlow.Broker.Store
import FogFlow.Library.Slices

namespace FogFlow.Broker

open Ngsi Named Slices

structure StoredElement where
  entity : EntityId
  type : String
  attributes : Slice
  metadata : List ContextMetadata

structure StoredEntities where
  arrays : Arrays ContextAttribute
  entities : GoMap StoredElement

def StoredEntities.empty : StoredEntities := ⟨[], ∅⟩

-- a request brings its element with an array of its own, and room in it beyond the attributes
structure Arrival where
  element : ContextElement
  room : List ContextAttribute
  growth : List ContextAttribute

def updateAttributesInPlace (growth : List ContextAttribute) (arrays : Arrays ContextAttribute)
    (currentAttributes newAttributes : Slice) : Arrays ContextAttribute × Slice :=
  let attributeNames := (contents arrays newAttributes).map ContextAttribute.name
  let filteredAttributes := filterInPlace (fun attr => !attributeNames.contains attr.name) growth
    arrays currentAttributes
  append growth filteredAttributes.1 filteredAttributes.2
    (contents filteredAttributes.1 newAttributes)

def StoredEntities.updateContextElement (growth : List ContextAttribute) (tb : StoredEntities)
    (ctxElem : StoredElement) : StoredEntities :=
  let eid := ctxElem.entity.id
  match tb.entities.get eid with
  | some curElement =>
      let updated := updateAttributesInPlace growth tb.arrays curElement.attributes
        ctxElem.attributes
      { arrays := updated.1
        entities := tb.entities.set eid { curElement with
          attributes := updated.2
          metadata := ctxElem.metadata.foldl (fun current metadata =>
            updateDomainMetadata metadata current) curElement.metadata } }
  | none => { tb with entities := tb.entities.set eid ctxElem }

def StoredEntities.receive (tb : StoredEntities) (arrival : Arrival) : StoredEntities :=
  let element := arrival.element
  let made := make tb.arrays element.attributes arrival.room
  updateContextElement arrival.growth ⟨made.1, tb.entities⟩
    ⟨element.entity, element.type, made.2, element.metadata⟩

def StoredElement.load (arrays : Arrays ContextAttribute) (e : StoredElement) : ContextElement :=
  ⟨e.entity, e.type, contents arrays e.attributes, e.metadata⟩

def StoredEntities.get (tb : StoredEntities) (eid : String) : Option ContextElement :=
  (tb.entities.get eid).map (StoredElement.load tb.arrays)

-- each stored element has its own array
structure Separate (tb : StoredEntities) : Prop where
  valid : ∀ eid e, tb.entities.get eid = some e → Valid tb.arrays e.attributes
  own : ∀ eid eid' e e', tb.entities.get eid = some e → tb.entities.get eid' = some e' →
    e.attributes.array = e'.attributes.array → eid = eid'

variable {tb : StoredEntities} {arrays : Arrays ContextAttribute}
  {growth : List ContextAttribute} {currentAttributes newAttributes : Slice}

theorem updateAttributesInPlace_spec (growth : List ContextAttribute)
    (hcur : Valid arrays currentAttributes) (hnew : Valid arrays newAttributes)
    (hne : newAttributes.array ≠ currentAttributes.array) :
    let updated := updateAttributesInPlace growth arrays currentAttributes newAttributes
    contents updated.1 updated.2 = updateAttributes (contents arrays currentAttributes)
        (contents arrays newAttributes) ∧
      Writes arrays updated.1 currentAttributes updated.2 := by
  intro updated
  have hkeep : ∀ attr : ContextAttribute,
      ((contents arrays newAttributes).map ContextAttribute.name).contains attr.name =
        (contents arrays newAttributes).any
          (fun newAttribute => newAttribute.name == attr.name) := by
    intro attr
    rw [List.contains_eq_any_beq, List.any_map]
    exact congrArg (List.any _) (funext fun newAttribute => Bool.beq_comm)
  obtain ⟨hfilter, hwrites⟩ := filterInPlace_spec hcur (fun attr =>
    !((contents arrays newAttributes).map ContextAttribute.name).contains attr.name) growth
  obtain ⟨-, hsame⟩ := hwrites.others newAttributes hnew hne
  obtain ⟨happend, hwrites'⟩ := append_spec hwrites.valid growth
    (contents (filterInPlace (fun attr =>
      !((contents arrays newAttributes).map ContextAttribute.name).contains attr.name) growth
      arrays currentAttributes).1 newAttributes)
  refine ⟨happend.trans ?_, hwrites.trans hwrites'⟩
  rw [hfilter, hsame, updateAttributes]
  simp only [hkeep]

-- an element is stored in an array that no other element has
theorem store_spec {arrays' : Arrays ContextAttribute} (eid : String) {e : StoredElement}
    (hsep : Separate tb) (hvalid : Valid arrays' e.attributes)
    (hothers : ∀ eid' e', eid' ≠ eid → tb.entities.get eid' = some e' →
      Valid arrays' e'.attributes ∧ e'.attributes.array ≠ e.attributes.array ∧
        contents arrays' e'.attributes = contents tb.arrays e'.attributes) :
    Separate ⟨arrays', tb.entities.set eid e⟩ ∧
      ∀ eid', StoredEntities.get ⟨arrays', tb.entities.set eid e⟩ eid' =
        if eid' = eid then some (e.load arrays') else tb.get eid' := by
  refine ⟨⟨fun eid' e' he' => ?_, fun eid₁ eid₂ e₁ e₂ he₁ he₂ harray => ?_⟩, fun eid' => ?_⟩
  · rw [GoMap.get_set] at he'
    split_ifs at he' with hid
    · rwa [← Option.some.inj he']
    · exact (hothers eid' e' hid he').1
  · rw [GoMap.get_set] at he₁ he₂
    split_ifs at he₁ he₂ with h₁ h₂ h₂
    · rw [h₁, h₂]
    · rw [← Option.some.inj he₁] at harray
      exact absurd harray.symm (hothers eid₂ e₂ h₂ he₂).2.1
    · rw [← Option.some.inj he₂] at harray
      exact absurd harray (hothers eid₁ e₁ h₁ he₁).2.1
    · exact hsep.own eid₁ eid₂ e₁ e₂ he₁ he₂ harray
  · rw [StoredEntities.get, GoMap.get_set]
    split_ifs with hid
    · rfl
    · rw [StoredEntities.get]
      cases hget : tb.entities.get eid' with
      | none => rfl
      | some e' =>
        rw [Option.map_some, Option.map_some, StoredElement.load, StoredElement.load,
          (hothers eid' e' hid hget).2.2]

theorem receive_spec (hsep : Separate tb) (arrival : Arrival) :
    Separate (tb.receive arrival) ∧ ∀ eid, (tb.receive arrival).get eid =
      if eid = arrival.element.entity.id then
        some (((tb.get arrival.element.entity.id).map
          (applyUpdate · arrival.element)).getD arrival.element)
      else tb.get eid := by
  obtain ⟨element, room, growth⟩ := arrival
  have hmade := valid_make tb.arrays element.attributes room
  have hcontents := contents_make tb.arrays element.attributes room
  have hold : ∀ eid e, tb.entities.get eid = some e →
      Valid (make tb.arrays element.attributes room).1 e.attributes ∧
        e.attributes.array ≠ (make tb.arrays element.attributes room).2.array ∧
        contents (make tb.arrays element.attributes room).1 e.attributes =
          contents tb.arrays e.attributes := by
    intro eid e he
    have hvalid := hsep.valid eid e he
    exact ⟨hvalid.make _ _, Nat.ne_of_lt hvalid.array, contents_make_old hvalid.array _ _⟩
  rw [StoredEntities.receive, StoredEntities.updateContextElement]
  generalize make tb.arrays element.attributes room = made at hmade hcontents hold
  cases hcur : tb.entities.get element.entity.id with
  | none =>
    obtain ⟨hsep', hget⟩ := store_spec element.entity.id
      (e := ⟨element.entity, element.type, made.2, element.metadata⟩) hsep hmade
      (fun eid' e' _ he' => hold eid' e' he')
    refine ⟨hsep', fun eid => (hget eid).trans ?_⟩
    simp only [StoredElement.load, hcontents, StoredEntities.get, hcur, Option.map_none,
      Option.getD_none]
  | some cur =>
    obtain ⟨hcurvalid, hcurne, hcursame⟩ := hold _ cur hcur
    obtain ⟨hupdate, hwrites⟩ := updateAttributesInPlace_spec growth hcurvalid hmade
      (Ne.symm hcurne)
    obtain ⟨hsep', hget⟩ := store_spec element.entity.id
      (e := { cur with
        attributes := (updateAttributesInPlace growth made.1 cur.attributes made.2).2
        metadata := element.metadata.foldl (fun current metadata =>
          updateDomainMetadata metadata current) cur.metadata })
      hsep hwrites.valid (fun eid' e' hne he' => by
        obtain ⟨hvalid, -, hsame⟩ := hold eid' e' he'
        have hcurne' : e'.attributes.array ≠ cur.attributes.array :=
          fun harray => hne (hsep.own eid' _ e' cur he' hcur harray)
        obtain ⟨hvalid', hsame'⟩ := hwrites.others e'.attributes hvalid hcurne'
        refine ⟨hvalid', ?_, hsame'.trans hsame⟩
        have hlt := hvalid.array
        rcases hwrites.owner with he | hnew
        · rwa [he]
        · exact Nat.ne_of_lt (Nat.lt_of_lt_of_le hlt hnew))
    refine ⟨hsep', fun eid => (hget eid).trans ?_⟩
    simp only [StoredElement.load, hupdate, hcontents, hcursame, StoredEntities.get, hcur,
      Option.map_some, Option.getD_some, applyUpdate]

def elementsOf (eid : String) (history : List Arrival) : List ContextElement :=
  (history.map Arrival.element).filter (fun element => element.entity.id == eid)

def mentions (n : String) (element : ContextElement) : Bool :=
  element.attributes.any (fun attr => attr.name == n)

-- the attributes of the last element that mentions the name
def lastMentioned (n : String) (elements : List ContextElement) : List ContextAttribute :=
  (((elements.filter (mentions n)).getLast?).map (fun element =>
    named ContextAttribute.name n element.attributes)).getD []

def StoredEntities.run (history : List Arrival) : StoredEntities :=
  history.foldl receive empty

theorem run_concat (history : List Arrival) (arrival : Arrival) :
    StoredEntities.run (history ++ [arrival]) = (StoredEntities.run history).receive arrival := by
  simp [StoredEntities.run]

theorem separate_run (history : List Arrival) : Separate (.run history) := by
  induction history using List.reverseRecOn with
  | nil => exact ⟨fun _ _ h => (nomatch h), fun _ _ _ _ h => (nomatch h)⟩
  | append_singleton history arrival ih =>
    rw [run_concat]
    exact (receive_spec ih arrival).1

theorem named_updateAttributes (current new : List ContextAttribute) (n : String) :
    named ContextAttribute.name n (updateAttributes current new) =
      if new.any (fun attr => attr.name == n) then named ContextAttribute.name n new
      else named ContextAttribute.name n current := by
  rw [updateAttributes, named_append, named, List.filter_filter]
  split_ifs with hn
  · have hnone : current.filter (fun attr => attr.name == n &&
        !new.any (fun newAttribute => newAttribute.name == attr.name)) = [] := by
      refine List.filter_eq_nil_iff.mpr (fun attr _ hattr => ?_)
      rw [Bool.and_eq_true, beq_iff_eq] at hattr
      rw [hattr.1, hn] at hattr
      exact absurd hattr.2 (by decide)
    rw [hnone, List.nil_append]
  · have hnew : named ContextAttribute.name n new = [] := by
      rw [named, List.filter_eq_nil_iff]
      exact fun attr hattr hname => hn (List.any_eq_true.mpr ⟨attr, hattr, hname⟩)
    rw [hnew, List.append_nil, named]
    refine List.filter_congr (fun attr _ => ?_)
    by_cases hname : attr.name = n
    · simp [hname, Bool.eq_false_iff.mpr hn]
    · simp [hname]

theorem elementsOf_concat (eid : String) (history : List Arrival) (arrival : Arrival) :
    elementsOf eid (history ++ [arrival]) =
      elementsOf eid history ++
        if arrival.element.entity.id = eid then [arrival.element] else [] := by
  rw [elementsOf, List.map_append, List.filter_append, elementsOf, List.map_singleton,
    List.filter_cons, List.filter_nil]
  simp only [beq_iff_eq]

theorem lastMentioned_concat (n : String) (elements : List ContextElement)
    (element : ContextElement) :
    lastMentioned n (elements ++ [element]) =
      if mentions n element then named ContextAttribute.name n element.attributes
      else lastMentioned n elements := by
  rw [lastMentioned, List.filter_append, List.filter_cons, List.filter_nil]
  split_ifs with hn
  · rw [List.getLast?_concat]
    rfl
  · rw [List.append_nil, lastMentioned]

-- what is stored of an entity, in terms of the elements that were applied to it
structure LastWriter (elements : List ContextElement) (stored : ContextElement) : Prop where
  first : ∃ first, elements.head? = some first ∧ stored.entity = first.entity ∧
    stored.type = first.type
  attributes : ∀ n, named ContextAttribute.name n stored.attributes = lastMentioned n elements

theorem lastWriter_first (element : ContextElement) : LastWriter [element] element := by
  refine ⟨⟨element, rfl, rfl, rfl⟩, fun n => ?_⟩
  rw [← List.nil_append [element], lastMentioned_concat]
  split_ifs with hn
  · rfl
  · rw [named, List.filter_eq_nil_iff.mpr]
    · rfl
    · exact fun attr hattr hname => hn (List.any_eq_true.mpr ⟨attr, hattr, hname⟩)

theorem LastWriter.applyUpdate {elements : List ContextElement} {stored : ContextElement}
    (h : LastWriter elements stored) (element : ContextElement) :
    LastWriter (elements ++ [element]) (applyUpdate stored element) := by
  obtain ⟨⟨first, hfirst, hentity, htype⟩, hattributes⟩ := h
  refine ⟨⟨first, ?_, hentity, htype⟩, fun n => ?_⟩
  · rw [List.head?_append, hfirst]
    rfl
  · rw [lastMentioned_concat, ← hattributes n]
    exact named_updateAttributes stored.attributes element.attributes n

theorem stored_run (history : List Arrival) (eid : String) :
    match (StoredEntities.run history).get eid with
    | some stored => LastWriter (elementsOf eid history) stored
    | none => elementsOf eid history = [] := by
  induction history using List.reverseRecOn with
  | nil => rfl
  | append_singleton history arrival ih =>
    rw [run_concat, (receive_spec (separate_run history) arrival).2, elementsOf_concat]
    by_cases hid : arrival.element.entity.id = eid
    · subst hid
      rw [if_pos rfl, if_pos rfl]
      cases hget : (StoredEntities.run history).get arrival.element.entity.id with
      | none =>
        rw [hget] at ih
        rw [show elementsOf arrival.element.entity.id history = [] from ih]
        exact lastWriter_first arrival.element
      | some stored =>
        rw [hget] at ih
        exact LastWriter.applyUpdate ih arrival.element
    · rw [if_neg (Ne.symm hid), if_neg hid, List.append_nil]
      exact ih

theorem last_writer_wins (history : List Arrival) :
    (∀ eid stored, (StoredEntities.run history).get eid = some stored →
      LastWriter (elementsOf eid history) stored) ∧
    (∀ eid, (StoredEntities.run history).get eid = none ↔ elementsOf eid history = []) ∧
    ∀ done arrival rest, history = done ++ arrival :: rest → ∀ eid,
      eid ≠ arrival.element.entity.id →
        (StoredEntities.run (done ++ [arrival])).get eid = (StoredEntities.run done).get eid := by
  refine ⟨fun eid stored hget => ?_, fun eid => ?_, fun done arrival rest _ eid hne => ?_⟩
  · have hstored := stored_run history eid
    rwa [hget] at hstored
  · have hstored := stored_run history eid
    constructor
    · intro hget
      rwa [hget] at hstored
    · intro hnil
      cases hget : (StoredEntities.run history).get eid with
      | none => rfl
      | some stored =>
        rw [hget] at hstored
        obtain ⟨first, hfirst, -⟩ := hstored.first
        rw [hnil] at hfirst
        cases hfirst
  · rw [run_concat, (receive_spec (separate_run done) arrival).2, if_neg hne]

end FogFlow.Broker
