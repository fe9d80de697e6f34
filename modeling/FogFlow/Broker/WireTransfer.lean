import FogFlow.Broker.ElementJson
import FogFlow.Library.Loop

namespace FogFlow.Broker.WireTransfer

open Ngsi ElementJson Loop PartialDecode PartialDecode.Decoded
open NotifiedElements (ContextElementResponse)

section Fields

variable {α : Type} {mapstructure : MapDecode} {decodeAttr : Json → Decoded α}
  {messageType : MessageType} {key : String}

theorem elementMember_attributes (h : foldName key = "ATTRIBUTES") (element : ElementObject α)
    (j : Json) :
    elementMember mapstructure decodeAttr element (key, j) =
      (decodeSlice decodeAttr element.attributes j).map
        (fun attrs => { element with attributes := attrs }) := by
  simp only [elementMember, h]

theorem elementMember_other (h : foldName key ≠ "ATTRIBUTES") (element : ElementObject α)
    (j : Json) :
    (elementMember mapstructure decodeAttr element (key, j)).value.attributes =
      element.attributes := by
  unfold elementMember
  split <;> simp_all

theorem responseMember_contextElement (h : foldName key = "CONTEXTELEMENT")
    (r : ResponseObject α) (j : Json) :
    responseMember mapstructure decodeAttr r (key, j) =
      (decodeObject (elementMember mapstructure decodeAttr) r.contextElement j).map
        (fun element => { r with contextElement := element }) := by
  simp only [responseMember, h]

theorem responseMember_other (h : foldName key ≠ "CONTEXTELEMENT") (r : ResponseObject α)
    (j : Json) :
    (responseMember mapstructure decodeAttr r (key, j)).value.contextElement =
      r.contextElement := by
  unfold responseMember
  split <;> simp_all

theorem messageMember_contextResponses (h : foldName key = "CONTEXTRESPONSES")
    (message : Message α) (j : Json) :
    messageMember mapstructure decodeAttr messageType message (key, j) =
      (decodeSlice (decodeResponse mapstructure decodeAttr) message.contextResponses j).map
        (fun rs => { message with contextResponses := rs }) := by
  unfold messageMember
  rw [h]
  cases messageType <;> rfl

theorem messageMember_other (h : foldName key ≠ "CONTEXTRESPONSES") (message : Message α)
    (j : Json) :
    (messageMember mapstructure decodeAttr messageType message (key, j)).value.contextResponses =
      message.contextResponses := by
  unfold messageMember
  split <;> simp_all

end Fields

section Lengths

variable {α β σ τ : Type} {mapstructure : MapDecode} {internal : Json → Decoded α}
  {parsed : Json → Decoded β}

theorem decodeObject_related {R : σ → τ → Prop} {f : σ → String × Json → Decoded σ}
    {g : τ → String × Json → Decoded τ} {s : σ} {t : τ} (h : R s t)
    (hstep : ∀ s t m, R s t → (f s m).stopped = false → (g t m).stopped = false →
      R (f s m).value (g t m).value) (j : Json)
    (hs : (decodeObject f s j).stopped = false) (ht : (decodeObject g t j).stopped = false) :
    R (decodeObject f s j).value (decodeObject g t j).value := by
  cases j with
  | object ms => exact members_related hstep h hs ht
  | _ => exact h

theorem decodeSlice_related {R : α → β → Prop} {xs : List α} {ys : List β}
    (h : List.Forall₂ R xs ys) (hdecode : ∀ j, (internal j).stopped = false →
      (parsed j).stopped = false → R (internal j).value (parsed j).value) (j : Json)
    (hs : (decodeSlice internal xs j).stopped = false)
    (ht : (decodeSlice parsed ys j).stopped = false) :
    List.Forall₂ R (decodeSlice internal xs j).value (decodeSlice parsed ys j).value := by
  cases j with
  | array js => exact forall₂_items (fun x _ => hdecode x) hs ht
  | null => exact .nil
  | _ => exact h

-- the attributes and the responses of the two runs stand at the same places
def Alike (element : ElementObject α) (element' : ElementObject β) : Prop :=
  List.Forall₂ (fun _ _ => True) element.attributes element'.attributes

def AlikeResponses (rs : List (ResponseObject α)) (rs' : List (ResponseObject β)) : Prop :=
  List.Forall₂ (fun r r' => Alike r.contextElement r'.contextElement) rs rs'

theorem alike_elementMember (element : ElementObject α) (element' : ElementObject β)
    (m : String × Json) (h : Alike element element')
    (hs : (elementMember mapstructure internal element m).stopped = false)
    (ht : (elementMember mapstructure parsed element' m).stopped = false) :
    Alike (elementMember mapstructure internal element m).value
      (elementMember mapstructure parsed element' m).value := by
  obtain ⟨key, j⟩ := m
  by_cases hname : foldName key = "ATTRIBUTES"
  · rw [elementMember_attributes hname] at hs ht ⊢
    rw [elementMember_attributes hname]
    exact decodeSlice_related h (fun _ _ _ => trivial) j hs ht
  · rw [Alike, elementMember_other hname, elementMember_other hname]
    exact h

theorem alike_decodeResponse (j : Json)
    (hs : (decodeResponse mapstructure internal j).stopped = false)
    (ht : (decodeResponse mapstructure parsed j).stopped = false) :
    Alike (decodeResponse mapstructure internal j).value.contextElement
      (decodeResponse mapstructure parsed j).value.contextElement := by
  have hzero : Alike (ElementObject.zero : ElementObject α) (.zero : ElementObject β) := .nil
  refine decodeObject_related (R := fun r r' => Alike r.contextElement r'.contextElement) hzero
    (fun r r' m h hr hr' => ?_) j hs ht
  obtain ⟨key, member⟩ := m
  by_cases hname : foldName key = "CONTEXTELEMENT"
  · rw [responseMember_contextElement hname] at hr hr' ⊢
    rw [responseMember_contextElement hname]
    exact decodeObject_related h alike_elementMember member hr hr'
  · rw [responseMember_other hname, responseMember_other hname]
    exact h

theorem alike_decodeMessage (messageType : MessageType) (body : Json)
    (hs : (decodeMessage mapstructure internal messageType body).stopped = false)
    (ht : (decodeMessage mapstructure parsed messageType body).stopped = false) :
    AlikeResponses (decodeMessage mapstructure internal messageType body).value.contextResponses
      (decodeMessage mapstructure parsed messageType body).value.contextResponses := by
  have hzero : AlikeResponses ([] : List (ResponseObject α)) ([] : List (ResponseObject β)) := .nil
  refine decodeObject_related
    (R := fun s t => AlikeResponses s.contextResponses t.contextResponses) hzero
    (fun message message' m h hm hm' => ?_) body hs ht
  obtain ⟨key, member⟩ := m
  by_cases hname : foldName key = "CONTEXTRESPONSES"
  · rw [messageMember_contextResponses hname] at hm hm' ⊢
    rw [messageMember_contextResponses hname]
    exact decodeSlice_related h alike_decodeResponse member hm hm'
  · rw [messageMember_other hname, messageMember_other hname]
    exact h

end Lengths

section Merge

theorem index_of_getElem? {γ : Type} {xs : List γ} {k : Nat} {x : γ} (h : xs[k]? = some x) :
    index xs k = .ok x := by
  rw [index, h]

theorem ends_mergedAttribute {parsed : List ContextAttribute}
    (internal : AttributeObject (Option (List Value)) × Nat) (h : internal.2 < parsed.length) :
    Loop.Ends (mergedAttribute parsed internal) := by
  unfold mergedAttribute
  split
  · exact ends_ok _
  · rw [index_of_getElem? (List.getElem?_eq_getElem h)]
    exact ends_ok _

theorem ends_mergedResponse {parsed : List (ResponseObject ContextAttribute)}
    {internal : ResponseObject (AttributeObject (Option (List Value)))} {k : Nat}
    {response : ResponseObject ContextAttribute} (hk : parsed[k]? = some response)
    (h : Alike internal.contextElement response.contextElement) :
    Loop.Ends (mergedResponse parsed (internal, k)) := by
  rw [mergedResponse, index_of_getElem? hk, ok_bind, ends_bind_ok, mapM_ends]
  rintro ⟨attr, i⟩ hattr
  have hi : i < internal.contextElement.attributes.length :=
    (List.getElem?_eq_some_iff.mp (List.mk_mem_zipIdx_iff_getElem?.mp hattr)).1
  exact ends_mergedAttribute _ (h.length_eq ▸ hi)

end Merge

-- the parser panics on no body whose metadata and attributes all decode
theorem parser_ends {text : Json → String} {mapstructure : MapDecode} {messageType : MessageType}
    {body : Json}
    (hmetadata : (decodeMessage mapstructure (decodeInternalAttribute mapstructure) messageType
      body).stopped = false)
    (hattributes : (decodeMessage mapstructure (decodeAttribute text mapstructure) messageType
      body).stopped = false) :
    Loop.Ends (parseContextElementResponses text mapstructure messageType body) := by
  have halike := alike_decodeMessage messageType body hmetadata hattributes
  rw [parseContextElementResponses, ends_bind_ok, mapM_ends]
  rintro ⟨r, k⟩ hr
  obtain ⟨hk, hget⟩ := List.getElem?_eq_some_iff.mp (List.mk_mem_zipIdx_iff_getElem?.mp hr)
  have hk' := hk
  rw [List.Forall₂.length_eq halike] at hk'
  refine ends_mergedResponse (List.getElem?_eq_getElem hk') ?_
  have hrelated := List.Forall₂.get halike hk hk'
  simp only [List.get_eq_getElem, hget] at hrelated
  exact hrelated

-- two attributes, the value of the first one of another type than the internal struct asks for
def twoAttributes (name : Json) : Json :=
  .object [("contextResponses", .array [.object [("contextElement",
    .object [("attributes", .array [.object [("name", name), ("value", .number 5)],
      .object [("name", .string "b"), ("value", .number 7)]])])]])]

theorem parser_ends_twoAttributes :
    (decodeMessage byFieldNames (decodeInternalAttribute byFieldNames) .notifyContextRequest
        (twoAttributes (.string "a"))).stopped = false ∧
      (decodeMessage byFieldNames (decodeAttribute (fun _ => "") byFieldNames)
        .notifyContextRequest (twoAttributes (.string "a"))).stopped = false ∧
      Loop.Ends (parseContextElementResponses (fun _ => "") byFieldNames .notifyContextRequest
        (twoAttributes (.string "a"))) :=
  ⟨by decide, by decide, parser_ends (by decide) (by decide)⟩

-- a name that is not a string ends the second run and not the first one
example : parseContextElementResponses (fun _ => "") byFieldNames .notifyContextRequest
    (twoAttributes (.number 1)) = .error .indexOutOfRange := by rfl

section Written

variable {α : Type} {rawMessage : String → Json} {mapstructure : MapDecode}
  {decodeAttr : Json → Decoded α} {f : ContextAttribute → α} {w : WrittenElement}

-- every metadata of the element is read back
structure Sendable (rawMessage : String → Json) (mapstructure : MapDecode)
    (element : ContextElement) : Prop where
  attributes : ∀ attr ∈ element.attributes, ∀ m ∈ attr.metadata,
    m.Sendable rawMessage mapstructure
  metadata : ∀ m ∈ element.metadata, m.Sendable rawMessage mapstructure

def decodedElement (rawMessage : String → Json) (mapstructure : MapDecode)
    (f : ContextAttribute → α) (w : WrittenElement) : ElementObject α :=
  if w.posted.isOrion then
    ⟨⟨"", false, ""⟩, w.posted.id, w.posted.element.type, w.isPattern,
      w.posted.element.attributes.map f, []⟩
  else
    ⟨w.posted.element.entity, "", "", "", w.posted.element.attributes.map f,
      w.posted.element.metadata.map (.sent rawMessage mapstructure)⟩

theorem reaches_attributes {attrs : List ContextAttribute}
    (h : ∀ attr ∈ attrs, Reaches (decodeAttr (attr.toJson rawMessage)) (f attr))
    (entity : EntityId) (id type isPattern : String) {rest : List (String × Json)}
    {out : ElementObject α} :
    Reaches (members (elementMember mapstructure decodeAttr) ⟨entity, id, type, isPattern, [], []⟩
        (omitSlice "attributes" (attrs.map (fun attr => attr.toJson rawMessage)) ++ rest)) out ↔
      Reaches (members (elementMember mapstructure decodeAttr)
        ⟨entity, id, type, isPattern, attrs.map f, []⟩ rest) out := by
  have hname : foldName "attributes" = "ATTRIBUTES" := by decide
  rw [omitSlice]
  split_ifs with hnone
  · rw [List.isEmpty_iff, List.map_eq_nil_iff] at hnone
    rw [hnone]
    rfl
  · refine members_cons_of_reaches ?_
    rw [elementMember_attributes hname]
    exact (items_map_of_reaches h).map _

theorem members_domainMetadata {ms : List ContextMetadata}
    (h : ∀ m ∈ ms, m.Sendable rawMessage mapstructure) (entity : EntityId)
    (id type isPattern : String) (attrs : List α) :
    members (elementMember mapstructure decodeAttr) ⟨entity, id, type, isPattern, attrs, []⟩
        (omitSlice "domainMetadata" (ms.map (fun m => m.toJson rawMessage))) =
      done ⟨entity, id, type, isPattern, attrs, ms.map (.sent rawMessage mapstructure)⟩ := by
  have hname : foldName "domainMetadata" = "DOMAINMETADATA" := by decide
  rw [omitSlice]
  split_ifs with hnone
  · rw [List.isEmpty_iff, List.map_eq_nil_iff] at hnone
    rw [hnone]
    rfl
  · have hmember : elementMember mapstructure decodeAttr ⟨entity, id, type, isPattern, attrs, []⟩
        ("domainMetadata", .array (ms.map (fun m => m.toJson rawMessage))) =
          done ⟨entity, id, type, isPattern, attrs, ms.map (.sent rawMessage mapstructure)⟩ := by
      simp only [elementMember, hname, decodeSlice, map_done,
        items_map_of_done (fun m hm => decodeMetadata_toJson (h m hm))]
    rw [members_cons_of_done hmember, members_nil]

theorem elementMember_id (element : ElementObject α) (s : String) :
    elementMember mapstructure decodeAttr element ("id", .string s) =
      done { element with id := s } := by
  have hid : foldName "id" = "ID" := by decide
  simp only [elementMember, hid, decodeString, ofOption_some, map_done]

theorem elementMember_type (element : ElementObject α) (s : String) :
    elementMember mapstructure decodeAttr element ("type", .string s) =
      done { element with type := s } := by
  have htype : foldName "type" = "TYPE" := by decide
  simp only [elementMember, htype, decodeString, ofOption_some, map_done]

theorem elementMember_isPattern (element : ElementObject α) (s : String) :
    elementMember mapstructure decodeAttr element ("isPattern", .string s) =
      done { element with isPattern := s } := by
  have hisPattern : foldName "isPattern" = "ISPATTERN" := by decide
  simp only [elementMember, hisPattern, decodeString, ofOption_some, map_done]

theorem elementMember_entityId (eid : EntityId) :
    elementMember mapstructure decodeAttr .zero ("entityId", eid.toJson) =
      done { (ElementObject.zero : ElementObject α) with entity := eid } := by
  have hentity : foldName "entityId" = "ENTITYID" := by decide
  simp only [elementMember, hentity, ElementObject.zero, decodeEntityId_toJson, map_done]

theorem reaches_element
    (hattr : ∀ attr ∈ w.posted.element.attributes,
      Reaches (decodeAttr (attr.toJson rawMessage)) (f attr))
    (hmeta : ∀ m ∈ w.posted.element.metadata, m.Sendable rawMessage mapstructure) :
    Reaches (decodeObject (elementMember mapstructure decodeAttr) .zero
      (w.marshalJSON rawMessage)) (decodedElement rawMessage mapstructure f w) := by
  unfold WrittenElement.marshalJSON decodedElement
  dsimp only
  split_ifs with horion
  · rw [decodeObject, List.cons_append, List.cons_append, List.singleton_append,
      members_cons_of_done (elementMember_id _ _), members_cons_of_done (elementMember_type _ _),
      members_cons_of_done (elementMember_isPattern _ _), ElementObject.zero,
      ← List.append_nil (omitSlice _ _), reaches_attributes hattr, members_nil]
    exact reaches_done _
  · rw [decodeObject, List.append_assoc, List.singleton_append,
      members_cons_of_done (elementMember_entityId _), ElementObject.zero,
      reaches_attributes hattr, members_domainMetadata hmeta]
    exact reaches_done _

theorem decodeObject_status {status : StatusCode} (h : isInt64 status.code = true) :
    decodeObject statusMember ⟨0, ""⟩ (statusToJson status) = done status := by
  have hcode : foldName "code" = "CODE" := by decide
  have hreason : foldName "reasonPhrase" = "REASONPHRASE" := by decide
  have hcodeMember : statusMember ⟨0, ""⟩ ("code", .number status.code) =
      done ⟨status.code, ""⟩ := by
    simp only [statusMember, hcode, decodeInt, h, if_true, Rat.num_intCast, ofOption_some, map_done]
  have hreasonMember : statusMember ⟨status.code, ""⟩
      ("reasonPhrase", .string status.reasonPhrase) = done status := by
    simp only [statusMember, hreason, decodeString, ofOption_some, map_done]
  rw [statusToJson, decodeObject, List.singleton_append, members_cons_of_done hcodeMember,
    omitString]
  split_ifs with hempty
  · rw [← hempty]
    rfl
  · rw [members_cons_of_done hreasonMember, members_nil]

theorem reaches_response {r : WrittenResponse} {element : ElementObject α}
    (helement : Reaches (decodeObject (elementMember mapstructure decodeAttr) .zero
      (r.contextElement.marshalJSON rawMessage)) element)
    (hstatus : isInt64 r.statusCode.code = true) :
    Reaches (decodeResponse mapstructure decodeAttr (r.toJson rawMessage))
      ⟨element, r.statusCode⟩ := by
  have hname : foldName "contextElement" = "CONTEXTELEMENT" := by decide
  have hcode : foldName "statusCode" = "STATUSCODE" := by decide
  have hfirst : Reaches (responseMember mapstructure decodeAttr .zero
      ("contextElement", r.contextElement.marshalJSON rawMessage)) ⟨element, ⟨0, ""⟩⟩ := by
    rw [responseMember_contextElement hname]
    exact helement.map _
  have hsecond : responseMember mapstructure decodeAttr ⟨element, ⟨0, ""⟩⟩
      ("statusCode", statusToJson r.statusCode) = done ⟨element, r.statusCode⟩ := by
    simp only [responseMember, hcode, decodeObject_status hstatus, map_done]
  rw [decodeResponse, WrittenResponse.toJson, decodeObject, members_cons_of_reaches hfirst,
    members_cons_of_done hsecond, members_nil]
  exact reaches_done _

theorem isInt64_ok : isInt64 ((200 : Int) : ℚ) = true := by
  simp [isInt64]

theorem reaches_responses {elems : List WrittenElement} (status : StatusCode)
    (hstatus : isInt64 status.code = true)
    (hattr : ∀ w ∈ elems, ∀ attr ∈ w.posted.element.attributes,
      Reaches (decodeAttr (attr.toJson rawMessage)) (f attr))
    (hmeta : ∀ w ∈ elems, ∀ m ∈ w.posted.element.metadata, m.Sendable rawMessage mapstructure)
    {messageType : MessageType} (subscriptionId originator : String)
    {rest : List (String × Json)} {out : Message α} :
    Reaches (members (messageMember mapstructure decodeAttr messageType)
        ⟨subscriptionId, originator, [], ⟨0, ""⟩⟩
        (omitSlice "contextResponses"
          (elems.map (fun w => (⟨w, status⟩ : WrittenResponse).toJson rawMessage)) ++ rest)) out ↔
      Reaches (members (messageMember mapstructure decodeAttr messageType)
        ⟨subscriptionId, originator,
          elems.map (fun w => ⟨decodedElement rawMessage mapstructure f w, status⟩),
          ⟨0, ""⟩⟩ rest) out := by
  have hname : foldName "contextResponses" = "CONTEXTRESPONSES" := by decide
  rw [omitSlice]
  split_ifs with hnone
  · rw [List.isEmpty_iff, List.map_eq_nil_iff] at hnone
    rw [hnone]
    rfl
  · refine members_cons_of_reaches ?_
    rw [messageMember_contextResponses hname]
    exact Reaches.map (items_map_of_reaches (fun w hw =>
      reaches_response (reaches_element (hattr w hw) (hmeta w hw)) hstatus)) _

theorem reaches_notifyContextRequest {elems : List WrittenElement} (subscriptionId : String)
    (hattr : ∀ w ∈ elems, ∀ attr ∈ w.posted.element.attributes,
      Reaches (decodeAttr (attr.toJson rawMessage)) (f attr))
    (hmeta : ∀ w ∈ elems, ∀ m ∈ w.posted.element.metadata, m.Sendable rawMessage mapstructure) :
    Reaches (decodeMessage mapstructure decodeAttr .notifyContextRequest
        (notifyContextRequest rawMessage elems subscriptionId))
      ⟨subscriptionId, "",
        elems.map (fun w => ⟨decodedElement rawMessage mapstructure f w, ⟨200, "OK"⟩⟩),
        ⟨0, ""⟩⟩ := by
  have hsubscription : foldName "subscriptionId" = "SUBSCRIPTIONID" := by decide
  have horiginator : foldName "originator" = "ORIGINATOR" := by decide
  have hfirst : messageMember mapstructure decodeAttr .notifyContextRequest .zero
      ("subscriptionId", .string subscriptionId) =
        done ⟨subscriptionId, "", [], ⟨0, ""⟩⟩ := by
    unfold messageMember
    rw [hsubscription]
    rfl
  have hsecond : messageMember mapstructure decodeAttr .notifyContextRequest
      ⟨subscriptionId, "", [], ⟨0, ""⟩⟩ ("originator", .string "") =
        done ⟨subscriptionId, "", [], ⟨0, ""⟩⟩ := by
    unfold messageMember
    rw [horiginator]
    rfl
  rw [decodeMessage, notifyContextRequest, toNGSIv1Payload, List.map_map, decodeObject,
    List.cons_append, List.singleton_append, members_cons_of_done hfirst,
    members_cons_of_done hsecond, ← List.append_nil (omitSlice _ _)]
  exact (reaches_responses _ isInt64_ok hattr hmeta _ _).mpr (reaches_done _)

theorem reaches_queryContextResponse {elems : List WrittenElement}
    (hattr : ∀ w ∈ elems, ∀ attr ∈ w.posted.element.attributes,
      Reaches (decodeAttr (attr.toJson rawMessage)) (f attr))
    (hmeta : ∀ w ∈ elems, ∀ m ∈ w.posted.element.metadata, m.Sendable rawMessage mapstructure) :
    Reaches (decodeMessage mapstructure decodeAttr .queryContextResponse
        (queryContextResponse rawMessage elems))
      ⟨"", "", elems.map (fun w => ⟨decodedElement rawMessage mapstructure f w, ⟨200, ""⟩⟩),
        ⟨200, "OK"⟩⟩ := by
  have herror : foldName "errorCode" = "ERRORCODE" := by decide
  have hlast (message : Message α) (h : message.errorCode = ⟨0, ""⟩) :
      messageMember mapstructure decodeAttr .queryContextResponse message
        ("errorCode", statusToJson ⟨200, "OK"⟩) =
        done { message with errorCode := ⟨200, "OK"⟩ } := by
    unfold messageMember
    rw [herror, h]
    dsimp only
    rw [decodeObject_status isInt64_ok]
    rfl
  rw [decodeMessage, queryContextResponse, decodeObject]
  refine (reaches_responses _ isInt64_ok hattr hmeta _ _).mpr ?_
  rw [members_cons_of_done (hlast _ rfl), members_nil]
  exact reaches_done _

end Written

section Hop

variable {rawMessage : String → Json} {text : Json → String} {mapstructure : MapDecode}

-- what one broker makes of the values and the metadata that another one has written
def wireCodec (rawMessage : String → Json) (text : Json → String) (mapstructure : MapDecode) :
    Codec :=
  ⟨hybridValue rawMessage text, .sent rawMessage mapstructure⟩

def internalOf (rawMessage : String → Json) (mapstructure : MapDecode) (attr : ContextAttribute) :
    AttributeObject (Option (List Value)) :=
  ⟨attr.name, attr.type, sliceOf (marshal rawMessage attr.value),
    attr.metadata.map (.sent rawMessage mapstructure)⟩

def parsedOf (rawMessage : String → Json) (text : Json → String) (mapstructure : MapDecode)
    (attr : ContextAttribute) : ContextAttribute :=
  ⟨attr.name, attr.type, plainValue rawMessage text attr.type attr.value,
    attr.metadata.map (.sent rawMessage mapstructure)⟩

theorem attributes_decodedElement {α : Type} (f : ContextAttribute → α) (w : WrittenElement) :
    (decodedElement rawMessage mapstructure f w).attributes =
      w.posted.element.attributes.map f := by
  unfold decodedElement
  split_ifs <;> rfl

theorem mergedAttribute_internalOf {parsed : List ContextAttribute} {attr : ContextAttribute}
    {i : Nat} (h : parsed[i]? = some (parsedOf rawMessage text mapstructure attr)) :
    mergedAttribute parsed (internalOf rawMessage mapstructure attr, i) =
      .ok ((wireCodec rawMessage text mapstructure).attribute attr) := by
  rw [mergedAttribute, internalOf, Codec.attribute, wireCodec]
  dsimp only
  rw [hybridValue]
  cases sliceOf (marshal rawMessage attr.value) with
  | some value => rfl
  | none =>
    dsimp only
    rw [index_of_getElem? h]
    rfl

theorem mergedResponse_decoded {parsed : List (ResponseObject ContextAttribute)}
    {w : WrittenElement} {k : Nat} {status : StatusCode}
    (h : parsed[k]? = some ⟨decodedElement rawMessage mapstructure
      (parsedOf rawMessage text mapstructure) w, status⟩) :
    mergedResponse parsed
        (⟨decodedElement rawMessage mapstructure (internalOf rawMessage mapstructure) w, status⟩,
          k) =
      .ok ⟨w.posted.received (wireCodec rawMessage text mapstructure), status⟩ := by
  have hattributes : (w.posted.element.attributes.map
      (internalOf rawMessage mapstructure)).zipIdx.mapM
        (mergedAttribute (w.posted.element.attributes.map
          (parsedOf rawMessage text mapstructure))) =
      .ok (w.posted.element.attributes.map
        (wireCodec rawMessage text mapstructure).attribute) := by
    refine mapM_zipIdx (fun i attr hattr => ?_)
    rw [Nat.zero_add]
    exact mergedAttribute_internalOf (by rw [List.getElem?_map, hattr, Option.map_some])
  rw [mergedResponse, index_of_getElem? h, ok_bind]
  dsimp only
  rw [attributes_decodedElement, attributes_decodedElement, hattributes, ok_bind]
  unfold decodedElement PostedElement.received PostedElement.transferred
  split_ifs <;> rfl

theorem mapM_mergedResponse (elems : List WrittenElement) (status : StatusCode) :
    (elems.map (fun w => (⟨decodedElement rawMessage mapstructure
        (internalOf rawMessage mapstructure) w, status⟩ :
          ResponseObject (AttributeObject (Option (List Value)))))).zipIdx.mapM
      (mergedResponse (elems.map (fun w => ⟨decodedElement rawMessage mapstructure
        (parsedOf rawMessage text mapstructure) w, status⟩))) =
      .ok (elems.map (fun w =>
        ⟨w.posted.received (wireCodec rawMessage text mapstructure), status⟩)) := by
  refine mapM_zipIdx (fun i w hw => ?_)
  rw [Nat.zero_add]
  exact mergedResponse_decoded (by rw [List.getElem?_map, hw, Option.map_some])

variable {elems : List WrittenElement}

theorem reaches_internalOf (h : ∀ w ∈ elems, Sendable rawMessage mapstructure w.posted.element) :
    ∀ w ∈ elems, ∀ attr ∈ w.posted.element.attributes,
      Reaches (decodeInternalAttribute mapstructure (attr.toJson rawMessage))
        (internalOf rawMessage mapstructure attr) :=
  fun w hw attr hattr => reaches_decodeInternalAttribute ((h w hw).attributes attr hattr)

theorem reaches_parsedOf (text : Json → String)
    (h : ∀ w ∈ elems, Sendable rawMessage mapstructure w.posted.element) :
    ∀ w ∈ elems, ∀ attr ∈ w.posted.element.attributes,
      Reaches (decodeAttribute text mapstructure (attr.toJson rawMessage))
        (parsedOf rawMessage text mapstructure attr) := by
  intro w hw attr hattr
  rw [decodeAttribute_toJson text ((h w hw).attributes attr hattr)]
  exact reaches_done _

theorem parse_notifyContextRequest
    (h : ∀ w ∈ elems, Sendable rawMessage mapstructure w.posted.element)
    (subscriptionId : String) :
    parseContextElementResponses text mapstructure .notifyContextRequest
        (notifyContextRequest rawMessage elems subscriptionId) =
      .ok ⟨subscriptionId, "", elems.map (fun w =>
        ⟨w.posted.received (wireCodec rawMessage text mapstructure), ⟨200, "OK"⟩⟩), ⟨0, ""⟩⟩ := by
  have hinternal := reaches_notifyContextRequest subscriptionId (reaches_internalOf h)
    (fun w hw => (h w hw).metadata)
  have hparsed := reaches_notifyContextRequest subscriptionId (reaches_parsedOf text h)
    (fun w hw => (h w hw).metadata)
  rw [parseContextElementResponses, hinternal.1, hparsed.1]
  dsimp only
  rw [mapM_mergedResponse, ok_bind]

theorem parse_queryContextResponse
    (h : ∀ w ∈ elems, Sendable rawMessage mapstructure w.posted.element) :
    parseContextElementResponses text mapstructure .queryContextResponse
        (queryContextResponse rawMessage elems) =
      .ok ⟨"", "", elems.map (fun w =>
        ⟨w.posted.received (wireCodec rawMessage text mapstructure), ⟨200, ""⟩⟩),
        ⟨200, "OK"⟩⟩ := by
  have hinternal := reaches_queryContextResponse (reaches_internalOf h)
    (fun w hw => (h w hw).metadata)
  have hparsed := reaches_queryContextResponse (reaches_parsedOf text h)
    (fun w hw => (h w hw).metadata)
  rw [parseContextElementResponses, hinternal.1, hparsed.1]
  dsimp only
  rw [mapM_mergedResponse, ok_bind]

end Hop

end FogFlow.Broker.WireTransfer
