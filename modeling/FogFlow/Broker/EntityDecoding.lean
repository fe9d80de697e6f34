import FogFlow.Broker.PointMetadata

namespace FogFlow.Broker.EntityDecoding

open Ngsi Fields Loop PointMetadata

-- what the decoders agree on: the loop over the members of the object after the check of the keys
def decodeEntity (readMember : ContextElement → GoMap.Entry Value → Except Fault ContextElement)
    (rank : String → Nat) (ce : ContextElement) (m : GoMap Value) :
    Except Fault (Bool × ContextElement) :=
  if (m.get "id").isNone || (m.get "type").isNone then .ok (false, ce)
  else do
    let ce ← (m.range rank).foldlM readMember ce
    .ok (true, ce)

structure Represents (wellFormed : String → Value → Prop) (m : GoMap Value)
    (ce : ContextElement) : Prop where
  id : m.get "id" = some (.string ce.entity.id)
  type : m.get "type" = some (.string ce.entity.type)
  attributes : ∀ k v, m.get k = some v → wellFormed k v → ∃ a ∈ ce.attributes, a.name = k

def Decodes (wellFormed : String → Value → Prop) (m : GoMap Value)
    (out : Except Fault (Bool × ContextElement)) : Prop :=
  ∃ read ce, out = .ok (read, ce) ∧ (read = true → Represents wellFormed m ce)

def HasText (m : GoMap Value) (k : String) : Prop := ∃ s, valueAt m k = .string s

-- every member of the name, in whatever case it is written, is the same text
def SameText (name : String) (m : GoMap Value) : Prop :=
  ∃ s, ∀ k v, m.get k = some v → toLower k = name → v = .string s

structure AcceptableMembers (readable : String → Value → Prop) (m : GoMap Value) : Prop where
  id : SameText "id" m
  type : SameText "type" m
  others : ∀ k v, m.get k = some v → toLower k ≠ "id" → toLower k ≠ "type" → readable k v

def Acceptable (readable : String → Value → Prop) (m : GoMap Value) : Prop :=
  (m.get "id").isSome → (m.get "type").isSome → AcceptableMembers readable m

def ReadableMember (readable : String → Value → Prop) (k : String) (v : Value) : Prop :=
  if toLower k = "id" ∨ toLower k = "type" then ∃ s, v = .string s else readable k v

structure ReadsMember (wellFormed : String → Value → Prop) (k : String) (v : Value)
    (ce ce' : ContextElement) : Prop where
  id : ce'.entity.id = if toLower k = "id" then textOf v else ce.entity.id
  type : ce'.entity.type = if toLower k = "type" then textOf v else ce.entity.type
  kept : ∀ a ∈ ce.attributes, a ∈ ce'.attributes
  added : wellFormed k v → ∃ a ∈ ce'.attributes, a.name = k

-- the contract of a loop body: when it panics, and what it has read when it does not
structure MemberDecoder
    (readMember : ContextElement → GoMap.Entry Value → Except Fault ContextElement)
    (readable wellFormed : String → Value → Prop) : Prop where
  ends : ∀ ce k v, Loop.Ends (readMember ce ⟨k, v⟩) ↔ ReadableMember readable k v
  reads : ∀ ce ce' k v, readMember ce ⟨k, v⟩ = .ok ce' → ReadsMember wellFormed k v ce ce'

-- the last member of the name wins
def textUnder (name : String) (entries : List (GoMap.Entry Value)) (text : String) : String :=
  entries.foldl (fun text e => if toLower e.1 = name then textOf e.2 else text) text

section

variable {readMember : ContextElement → GoMap.Entry Value → Except Fault ContextElement}
  {readable wellFormed : String → Value → Prop} {m : GoMap Value} {name : String}
  {entries : List (GoMap.Entry Value)} {ce out : ContextElement}

theorem textUnder_concat (e : GoMap.Entry Value) (text : String) :
    textUnder name (entries ++ [e]) text =
      if toLower e.1 = name then textOf e.2 else textUnder name entries text := by
  rw [textUnder, List.foldl_append]
  rfl

theorem textUnder_of_same {text s : String}
    (hsame : ∀ e ∈ entries, toLower e.1 = name → textOf e.2 = s)
    (hsome : ∃ e ∈ entries, toLower e.1 = name) : textUnder name entries text = s := by
  induction entries using List.reverseRecOn with
  | nil =>
    obtain ⟨e, he, -⟩ := hsome
    cases he
  | append_singleton entries e ih =>
    rw [textUnder_concat]
    split_ifs with hlast
    · exact hsame e (by simp) hlast
    · refine ih (fun e' he' => hsame e' (List.mem_append_left _ he')) ?_
      obtain ⟨e', he', hname⟩ := hsome
      rcases List.mem_append.mp he' with hin | hin
      · exact ⟨e', hin, hname⟩
      · rw [List.mem_singleton.mp hin] at hname
        exact absurd hname hlast

theorem reads_members (h : MemberDecoder readMember readable wellFormed)
    (hout : entries.foldlM readMember ce = .ok out) :
    out.entity.id = textUnder "id" entries ce.entity.id ∧
      out.entity.type = textUnder "type" entries ce.entity.type ∧
      ∀ e ∈ entries, wellFormed e.1 e.2 → ∃ a ∈ out.attributes, a.name = e.1 := by
  refine foldlM_invariant (I := fun done acc =>
    acc.entity.id = textUnder "id" done ce.entity.id ∧
      acc.entity.type = textUnder "type" done ce.entity.type ∧
      ∀ e ∈ done, wellFormed e.1 e.2 → ∃ a ∈ acc.attributes, a.name = e.1) hout
    ⟨rfl, rfl, by simp⟩ ?_
  rintro done ⟨k, v⟩ rest acc next - ⟨hid, htype, hattrs⟩ hnext
  have hreads := h.reads acc next k v hnext
  refine ⟨?_, ?_, fun e he hwell => ?_⟩
  · rw [hreads.id, hid, textUnder_concat]
  · rw [hreads.type, htype, textUnder_concat]
  · rcases List.mem_append.mp he with hdone | hlast
    · obtain ⟨a, ha, hname⟩ := hattrs e hdone hwell
      exact ⟨a, hreads.kept a ha, hname⟩
    · rw [List.mem_singleton.mp hlast] at hwell ⊢
      exact hreads.added hwell

theorem members_end (h : MemberDecoder readMember readable wellFormed) (rank : String → Nat) :
    Loop.Ends ((m.range rank).foldlM readMember ce) ↔
      ∀ k v, m.get k = some v → ReadableMember readable k v := by
  have hloop : Loop.Ends ((m.range rank).foldlM readMember ce) ↔
      ∀ e ∈ m.range rank, ReadableMember readable e.1 e.2 := by
    apply foldlM_ends_iff
    rintro acc ⟨k, v⟩
    exact h.ends acc k v
  rw [hloop]
  constructor
  · intro hall k v hk
    exact hall ⟨k, v⟩ (GoMap.mem_range.mpr hk)
  · rintro hall ⟨k, v⟩ he
    exact hall k v (GoMap.mem_range.mp he)

theorem decodes_of_keys (rank : String → Nat) (hid : (m.get "id").isSome)
    (htype : (m.get "type").isSome) :
    Decodes wellFormed m (decodeEntity readMember rank ce m) ↔
      ∃ out, (m.range rank).foldlM readMember ce = .ok out ∧ Represents wellFormed m out := by
  have hkeys : ((m.get "id").isNone || (m.get "type").isNone) = false := by
    rw [Option.isNone_eq_false_iff.mpr hid, Option.isNone_eq_false_iff.mpr htype]
    rfl
  rw [decodeEntity, hkeys, if_neg Bool.false_ne_true]
  constructor
  · rintro ⟨read, out, hout, hrep⟩
    obtain ⟨out', hloop, heq⟩ := bind_eq_ok.mp hout
    obtain ⟨rfl, rfl⟩ := Prod.mk.inj (Except.ok.inj heq)
    exact ⟨out', hloop, hrep rfl⟩
  · rintro ⟨out, hloop, hrep⟩
    exact ⟨true, out, by rw [hloop, ok_bind], fun _ => hrep⟩

theorem decodes_of_missing (rank : String → Nat)
    (hkeys : ¬ ((m.get "id").isSome ∧ (m.get "type").isSome)) :
    Decodes wellFormed m (decodeEntity readMember rank ce m) := by
  have hmissing : ((m.get "id").isNone || (m.get "type").isNone) = true := by
    cases hid : m.get "id" with
    | none => rfl
    | some v =>
      cases htype : m.get "type" with
      | none => rfl
      | some t => simp [hid, htype] at hkeys
  rw [decodeEntity, hmissing, if_pos rfl]
  exact ⟨false, ce, rfl, fun h => absurd h Bool.false_ne_true⟩

theorem acceptableMembers_readable (h : AcceptableMembers readable m) (k : String) (v : Value)
    (hk : m.get k = some v) : ReadableMember readable k v := by
  rw [ReadableMember]
  split_ifs with hname
  · rcases hname with hid | htype
    · obtain ⟨s, hs⟩ := h.id
      exact ⟨s, hs k v hk hid⟩
    · obtain ⟨s, hs⟩ := h.type
      exact ⟨s, hs k v hk htype⟩
  · push Not at hname
    exact h.others k v hk hname.1 hname.2

theorem readable_text (hreadable : ∀ k v, m.get k = some v → ReadableMember readable k v)
    {k : String} {v : Value} (hk : m.get k = some v) (hname : toLower k = "id" ∨ toLower k = "type") :
    v = .string (textOf v) := by
  have h := hreadable k v hk
  rw [ReadableMember, if_pos hname] at h
  obtain ⟨s, rfl⟩ := h
  rfl

theorem represents_of_acceptable (h : MemberDecoder readMember readable wellFormed)
    (rank : String → Nat) (hm : AcceptableMembers readable m) (hid : (m.get "id").isSome)
    (htype : (m.get "type").isSome) (hout : (m.range rank).foldlM readMember ce = .ok out) :
    Represents wellFormed m out := by
  obtain ⟨hoid, hotype, hattrs⟩ := reads_members h hout
  have hsame {name s : String} (hs : ∀ k v, m.get k = some v → toLower k = name → v = .string s)
      (hsome : (m.get name).isSome) (hlower : toLower name = name) (text : String) :
      m.get name = some (.string (textUnder name (m.range rank) text)) := by
    obtain ⟨v, hv⟩ := Option.isSome_iff_exists.mp hsome
    have htext : textUnder name (m.range rank) text = s := by
      refine textUnder_of_same ?_ ⟨⟨name, v⟩, GoMap.mem_range.mpr hv, hlower⟩
      rintro ⟨k, w⟩ he hname
      rw [hs k w (GoMap.mem_range.mp he) hname]
      rfl
    rw [htext, hv, hs name v hv hlower]
  obtain ⟨s, hs⟩ := hm.id
  obtain ⟨t, ht⟩ := hm.type
  refine ⟨?_, ?_, fun k v hk hwell => hattrs ⟨k, v⟩ (GoMap.mem_range.mpr hk) hwell⟩
  · rw [hoid]
    exact hsame hs hid (by decide) ce.entity.id
  · rw [hotype]
    exact hsame ht htype (by decide) ce.entity.type

end

-- a decoder whose loop over the members may take any order
theorem decodes_iff {Orders : Type} {rank : Orders → String → Nat}
    (hrank : ∀ r, ∃ orders, rank orders = r)
    {readMember : Orders → ContextElement → GoMap.Entry Value → Except Fault ContextElement}
    {readable wellFormed : String → Value → Prop}
    (h : ∀ orders, MemberDecoder (readMember orders) readable wellFormed)
    (start : ContextElement → ContextElement) (m : GoMap Value) :
    (∀ orders ce, Decodes wellFormed m
      (decodeEntity (readMember orders) (rank orders) (start ce) m)) ↔ Acceptable readable m := by
  constructor
  · intro hall hid htype
    have hread (orders : Orders) := (decodes_of_keys (rank orders) hid htype).mp
      (hall orders ContextElement.zero)
    obtain ⟨orders, -⟩ := hrank (fun _ => 0)
    obtain ⟨out, hloop, hrep⟩ := hread orders
    have hreadable := (members_end (h orders) (rank orders)).mp ⟨out, hloop⟩
    -- the loop may visit any member last
    have hlast (k : String) (v : Value) (hk : m.get k = some v) :
        ∃ rest text text' out, Represents wellFormed m out ∧
          out.entity.id = textUnder "id" (rest ++ [⟨k, v⟩]) text ∧
          out.entity.type = textUnder "type" (rest ++ [⟨k, v⟩]) text' := by
      obtain ⟨rest, hrest⟩ := GoMap.range_ending hk
      obtain ⟨orders, horders⟩ := hrank (fun k' => if k' = k then 1 else 0)
      obtain ⟨out, hloop, hrep⟩ := hread orders
      obtain ⟨hid, htype, -⟩ := reads_members (h orders) hloop
      rw [horders, hrest] at hid htype
      exact ⟨rest, _, _, out, hrep, hid, htype⟩
    refine ⟨⟨out.entity.id, fun k v hk hname => ?_⟩, ⟨out.entity.type, fun k v hk hname => ?_⟩,
      fun k v hk hid htype => ?_⟩
    · obtain ⟨rest, text, text', out', hrep', hid', -⟩ := hlast k v hk
      rw [textUnder_concat, if_pos hname] at hid'
      have hsame := hrep'.id.symm.trans hrep.id
      rw [readable_text hreadable hk (Or.inl hname), ← hid']
      exact Option.some.inj hsame
    · obtain ⟨rest, text, text', out', hrep', -, htype'⟩ := hlast k v hk
      rw [textUnder_concat, if_pos hname] at htype'
      have hsame := hrep'.type.symm.trans hrep.type
      rw [readable_text hreadable hk (Or.inr hname), ← htype']
      exact Option.some.inj hsame
    · have hmember := hreadable k v hk
      rwa [ReadableMember, if_neg (not_or.mpr ⟨hid, htype⟩)] at hmember
  · intro hm orders ce
    by_cases hkeys : (m.get "id").isSome ∧ (m.get "type").isSome
    · have hacceptable := hm hkeys.1 hkeys.2
      rw [decodes_of_keys (rank orders) hkeys.1 hkeys.2]
      have hends : Loop.Ends ((m.range (rank orders)).foldlM (readMember orders) (start ce)) :=
        (members_end (h orders) (rank orders)).mpr (acceptableMembers_readable hacceptable)
      obtain ⟨out, hout⟩ := hends
      exact ⟨out, hout, represents_of_acceptable (h orders) (rank orders) hacceptable hkeys.1
        hkeys.2 hout⟩
    · exact decodes_of_missing (rank orders) hkeys

def ReadableGeoJSON (geojson : GoMap Value) : Prop :=
  ∃ s, valueAt geojson "type" = .string s ∧ (toLower s = "point" →
    ∃ longitude latitude rest,
      valueAt geojson "coordinates" = .array (.number longitude :: .number latitude :: rest))

def ReadableLocation (ldAttribute : GoMap Value) : Prop :=
  ∀ s, valueAt ldAttribute "type" = .string s → toLower s = "geoproperty" →
    ∃ fields, valueAt ldAttribute "value" = .object fields ∧ ReadableGeoJSON (ofFields fields)

def ReadableLD (k : String) (v : Value) : Prop :=
  toLower k ≠ "@context" →
    match v with
    | .object fields => HasText (ofFields fields) "type" ∧
        (toLower k = "location" → ReadableLocation (ofFields fields))
    | .array items => ∀ fields, .object fields ∈ items → HasText (ofFields fields) "type"
    | _ => True

-- an attribute that the decoder does not report as invalid
def WellFormedAttribute (ldAttribute : GoMap Value) : Prop :=
  ∃ s, valueAt ldAttribute "type" = .string s ∧
    (toLower s = "property" ∧ valueAt ldAttribute "value" ≠ .null ∨
      toLower s = "relationship" ∧ valueAt ldAttribute "object" ≠ .null)

def WellFormedLD (k : String) (v : Value) : Prop :=
  k ≠ "" ∧ toLower k ∉ ["id", "type", "@context"] ∧
    ((∃ fields, v = .object fields ∧ WellFormedAttribute (ofFields fields)) ∨
      ∃ items fields, v = .array items ∧ .object fields ∈ items ∧
        WellFormedAttribute (ofFields fields))

def ReadableMetadataV2 (v : Value) : Prop :=
  ∃ fields, v = .object fields ∧ HasText (ofFields fields) "type"

def ReadableAttributeV2 (v2Attribute : GoMap Value) : Prop :=
  HasText v2Attribute "type" ∧ ∀ metadata, v2Attribute.get "metadata" = some metadata →
    ∃ fields, metadata = .object fields ∧
      ∀ k v, (ofFields fields).get k = some v → ReadableMetadataV2 v

def ReadableV2 (_ : String) (v : Value) : Prop :=
  match v with
  | .null => False
  | .object fields => ReadableAttributeV2 (ofFields fields)
  | _ => True

def WellFormedV2 (k : String) (v : Value) : Prop :=
  toLower k ∉ ["id", "type"] ∧ ∃ fields, v = .object fields ∧ HasText (ofFields fields) "type"

theorem asString_ends {v : Value} : Loop.Ends (asString v) ↔ ∃ s, v = .string s := by
  simp only [Loop.Ends, asString_eq_ok]

theorem asMap_ends {v : Value} : Loop.Ends (asMap v) ↔ ∃ fields, v = .object fields := by
  cases v <;> simp [asMap]

theorem readMetadataV2_ends {e : GoMap.Entry Value} :
    Loop.Ends (readMetadataV2 e) ↔ ReadableMetadataV2 e.2 := by
  rw [readMetadataV2, ReadableMetadataV2, ends_bind]
  constructor
  · rintro ⟨m, hm, hrest⟩
    obtain ⟨fields, hfields⟩ := asMap_ends.mp ⟨m, hm⟩
    rw [hfields] at hm
    obtain rfl := Except.ok.inj hm
    exact ⟨fields, hfields, asString_ends.mp (ends_bind_ok.mp hrest)⟩
  · rintro ⟨fields, hfields, htext⟩
    exact ⟨ofFields fields, by rw [hfields]; rfl, ends_bind_ok.mpr (asString_ends.mpr htext)⟩

theorem readAttributeMetadata_ends {rank : String → Nat} {m : GoMap Value} :
    Loop.Ends (readAttributeMetadata rank m) ↔ ∀ metadata, m.get "metadata" = some metadata →
      ∃ fields, metadata = .object fields ∧
        ∀ k v, (ofFields fields).get k = some v → ReadableMetadataV2 v := by
  unfold readAttributeMetadata
  cases m.get "metadata" with
  | none => simp
  | some metadata =>
    have hloop (fields : List (String × Value)) :
        Loop.Ends (((ofFields fields).range rank).mapM readMetadataV2) ↔
          ∀ k v, (ofFields fields).get k = some v → ReadableMetadataV2 v := by
      rw [mapM_ends]
      constructor
      · intro h k v hk
        exact readMetadataV2_ends.mp (h ⟨k, v⟩ (GoMap.mem_range.mpr hk))
      · rintro h ⟨k, v⟩ he
        exact readMetadataV2_ends.mpr (h k v (GoMap.mem_range.mp he))
    dsimp only
    rw [ends_bind]
    constructor
    · rintro ⟨members, hmembers, hrest⟩ metadata' heq
      obtain rfl := Option.some.inj heq
      obtain ⟨fields, hfields⟩ := asMap_ends.mp ⟨members, hmembers⟩
      rw [hfields] at hmembers
      obtain rfl := Except.ok.inj hmembers
      exact ⟨fields, hfields, (hloop fields).mp hrest⟩
    · intro h
      obtain ⟨fields, rfl, hall⟩ := h metadata rfl
      exact ⟨ofFields fields, rfl, (hloop fields).mpr hall⟩

theorem readAttributeV2_ends {rank : String → Nat} {k : String} {m : GoMap Value} :
    Loop.Ends (readAttributeV2 rank k m) ↔ ReadableAttributeV2 m := by
  rw [readAttributeV2, ReadableAttributeV2, ends_bind, ← @readAttributeMetadata_ends rank m]
  constructor
  · rintro ⟨attrType, htype, hrest⟩
    exact ⟨asString_ends.mp ⟨attrType, htype⟩, ends_bind_ok.mp hrest⟩
  · rintro ⟨htext, hmetadata⟩
    obtain ⟨attrType, htype⟩ := asString_ends.mpr htext
    exact ⟨attrType, htype, ends_bind_ok.mpr hmetadata⟩

theorem readEntryV2_ends (orders : OrdersV2) (ce : ContextElement) (k : String) (v : Value) :
    Loop.Ends (readEntryV2 orders ce ⟨k, v⟩) ↔ ReadableMember ReadableV2 k v := by
  unfold readEntryV2
  dsimp only
  split
  next hid => rw [ends_bind_ok, asString_ends, ReadableMember, if_pos (Or.inl hid)]
  next htype => rw [ends_bind_ok, asString_ends, ReadableMember, if_pos (Or.inr htype)]
  next hid htype =>
    rw [ReadableMember, if_neg (not_or.mpr ⟨hid, htype⟩)]
    cases v with
    | null => simp [ReadableV2]
    | object fields =>
      dsimp only
      rw [ends_bind_ok, readAttributeV2_ends, ReadableV2]
    | _ => simp [ReadableV2]

theorem readEntryV2_readsMember {orders : OrdersV2} {ce ce' : ContextElement} {k : String}
    {v : Value} (h : readEntryV2 orders ce ⟨k, v⟩ = .ok ce') :
    ReadsMember WellFormedV2 k v ce ce' := by
  unfold readEntryV2 at h
  dsimp only at h
  split at h
  next hid =>
    obtain ⟨id, hv, hce⟩ := bind_eq_ok.mp h
    obtain rfl := asString_eq_ok.mp hv
    rw [← Except.ok.inj hce]
    exact ⟨by simp [hid, textOf], by simp [hid], fun _ ha => ha,
      fun hwell => absurd hid (by simpa using (not_or.mp (by simpa using hwell.1)).1)⟩
  next htype =>
    obtain ⟨type, hv, hce⟩ := bind_eq_ok.mp h
    obtain rfl := asString_eq_ok.mp hv
    rw [← Except.ok.inj hce]
    exact ⟨by simp [htype], by simp [htype, textOf], fun _ ha => ha,
      fun hwell => absurd htype (by simpa using (not_or.mp (by simpa using hwell.1)).2)⟩
  next hid htype =>
    cases v with
    | null => cases h
    | object fields =>
      obtain ⟨attr, hattr, hce⟩ := bind_eq_ok.mp h
      obtain ⟨attrType, -, hrest⟩ := bind_eq_ok.mp hattr
      obtain ⟨metadata, -, hnew⟩ := bind_eq_ok.mp hrest
      rw [← Except.ok.inj hce]
      refine ⟨(if_neg hid).symm, (if_neg htype).symm, fun a ha => List.mem_append_left _ ha,
        fun _ => ⟨attr, List.mem_append_right _ (List.mem_singleton_self _), ?_⟩⟩
      rw [← Except.ok.inj hnew]
    | _ =>
      rw [← Except.ok.inj h]
      refine ⟨(if_neg hid).symm, (if_neg htype).symm, fun a ha => ha, fun hwell => ?_⟩
      obtain ⟨-, fields, hfields, -⟩ := hwell
      cases hfields

theorem readAttributeFromNGSILD_ends {rank : String → Nat} {k : String} {m : GoMap Value} :
    Loop.Ends (readAttributeFromNGSILD rank k m) ↔ HasText m "type" := by
  rw [readAttributeFromNGSILD, ends_bind]
  constructor
  · rintro ⟨attrType, htype, -⟩
    exact asString_ends.mp ⟨attrType, htype⟩
  · intro htext
    obtain ⟨attrType, htype⟩ := asString_ends.mpr htext
    refine ⟨attrType, htype, ?_⟩
    dsimp only
    split_ifs <;> exact ends_ok _

theorem readObject_ends {orders : Orders} {k : String} {ce : ContextElement}
    {fields : List (String × Value)} {i : Nat} :
    Loop.Ends (readItem orders k ce (.object fields, i)) ↔ HasText (ofFields fields) "type" :=
  ends_bind_ok.trans readAttributeFromNGSILD_ends

theorem readItem_ends {orders : Orders} {k : String} {ce : ContextElement} {item : Value × Nat} :
    Loop.Ends (readItem orders k ce item) ↔
      ∀ fields, item.1 = .object fields → HasText (ofFields fields) "type" := by
  obtain ⟨v, i⟩ := item
  cases v with
  | object fields =>
    rw [readObject_ends]
    constructor
    · intro h fields' heq
      exact Value.object.inj heq ▸ h
    · intro h
      exact h fields rfl
  | _ => simp [readItem]

theorem asSlice_eq_ok {v : Value} {items : List Value} :
    asSlice v = .ok items ↔ v = .array items := by
  cases v <;> simp [asSlice]

theorem asFloat64_eq_ok {v : Value} {q : ℚ} : asFloat64 v = .ok q ↔ v = .number q := by
  cases v <;> simp [asFloat64]

theorem readGeoJSON_ends {metadata : ContextMetadata} {geojson : GoMap Value} :
    Loop.Ends (metadata.readGeoJSON geojson) ↔ ReadableGeoJSON geojson := by
  rw [ContextMetadata.readGeoJSON, ends_bind]
  refine exists_congr (fun s => and_congr asString_eq_ok ?_)
  split_ifs with hpoint
  · constructor
    · intro h _
      obtain ⟨coordinates, hcoordinates, h⟩ := ends_bind.mp h
      obtain ⟨first, hfirst, h⟩ := ends_bind.mp h
      obtain ⟨longitude, hlongitude, h⟩ := ends_bind.mp h
      obtain ⟨second, hsecond, h⟩ := ends_bind.mp h
      obtain ⟨latitude, hlatitude, -⟩ := ends_bind.mp h
      obtain rfl := asFloat64_eq_ok.mp hlongitude
      obtain rfl := asFloat64_eq_ok.mp hlatitude
      rw [asSlice_eq_ok.mp hcoordinates]
      match coordinates with
      | [] => simp [index] at hfirst
      | [_] => simp [index] at hsecond
      | x :: y :: rest =>
        obtain rfl : x = .number longitude := Except.ok.inj hfirst
        obtain rfl : y = .number latitude := Except.ok.inj hsecond
        exact ⟨longitude, latitude, rest, rfl⟩
    · intro h
      obtain ⟨longitude, latitude, rest, hcoordinates⟩ := h hpoint
      rw [hcoordinates]
      exact ends_ok _
  · simp [hpoint]

theorem readLocation_ends {k : String} {m : GoMap Value} :
    Loop.Ends (readLocation k m) ↔ HasText m "type" ∧ ReadableLocation m := by
  rw [readLocation, ends_bind]
  constructor
  · rintro ⟨attrType, htype, hrest⟩
    refine ⟨asString_ends.mp ⟨attrType, htype⟩, fun s hs hgeo => ?_⟩
    obtain rfl := Value.string.inj ((asString_eq_ok.mp htype).symm.trans hs)
    dsimp only at hrest
    rw [if_pos hgeo, ends_bind] at hrest
    obtain ⟨geojson, hmap, hgeojson⟩ := hrest
    obtain ⟨fields, hfields⟩ := asMap_ends.mp ⟨geojson, hmap⟩
    rw [hfields] at hmap
    obtain rfl := Except.ok.inj hmap
    exact ⟨fields, hfields, readGeoJSON_ends.mp hgeojson⟩
  · rintro ⟨⟨s, hs⟩, hlocation⟩
    refine ⟨s, asString_eq_ok.mpr hs, ?_⟩
    dsimp only
    split_ifs with hgeo
    · obtain ⟨fields, hfields, hgeojson⟩ := hlocation s hs hgeo
      rw [hfields]
      exact readGeoJSON_ends.mpr hgeojson
    · exact ends_ok _

theorem readEntry_ends (orders : Orders) (ce : ContextElement) (k : String) (v : Value) :
    Loop.Ends (readEntry orders ce ⟨k, v⟩) ↔ ReadableMember ReadableLD k v := by
  unfold readEntry
  dsimp only
  split
  next hid => rw [ends_bind_ok, asString_ends, ReadableMember, if_pos (Or.inl hid)]
  next htype => rw [ends_bind_ok, asString_ends, ReadableMember, if_pos (Or.inr htype)]
  next hcontext =>
    have hid : toLower k ≠ "id" := by
      rw [hcontext]
      decide
    have htype : toLower k ≠ "type" := by
      rw [hcontext]
      decide
    rw [ReadableMember, if_neg (not_or.mpr ⟨hid, htype⟩)]
    exact iff_of_true (ends_ok _) (fun h => absurd hcontext h)
  next hid htype hcontext =>
    rw [ReadableMember, if_neg (not_or.mpr ⟨hid, htype⟩)]
    cases v with
    | object fields =>
      dsimp only
      split_ifs with hlocation
      · constructor
        · intro h _
          obtain ⟨ce', -, hrest⟩ := ends_bind.mp h
          obtain ⟨htext, hread⟩ := readLocation_ends.mp (ends_bind_ok.mp hrest)
          exact ⟨htext, fun _ => hread⟩
        · intro h
          obtain ⟨htext, hread⟩ := h hcontext
          obtain ⟨ce', hce'⟩ := readObject_ends.mpr htext
          exact ends_bind.mpr ⟨ce', hce', ends_bind_ok.mpr
            (readLocation_ends.mpr ⟨htext, hread hlocation⟩)⟩
      · constructor
        · intro h _
          obtain ⟨ce', -, hrest⟩ := ends_bind.mp h
          exact ⟨asString_ends.mp (ends_bind_ok.mp hrest), fun h => absurd h hlocation⟩
        · intro h
          obtain ⟨htext, -⟩ := h hcontext
          obtain ⟨ce', hce'⟩ := readObject_ends.mpr htext
          exact ends_bind.mpr ⟨ce', hce', ends_bind_ok.mpr (asString_ends.mpr htext)⟩
    | array items =>
      dsimp only
      have hloop : Loop.Ends (items.zipIdx.foldlM (readItem orders k) ce) ↔
          ∀ item ∈ items.zipIdx, ∀ fields, item.1 = .object fields →
            HasText (ofFields fields) "type" := by
        apply foldlM_ends_iff
        intro acc item
        exact readItem_ends
      rw [hloop, ReadableLD]
      constructor
      · intro h _ fields hfields
        obtain ⟨i, hi⟩ := List.mem_iff_getElem?.mp hfields
        exact h (.object fields, i) (List.mk_mem_zipIdx_iff_getElem?.mpr hi) fields rfl
      · rintro h ⟨item, i⟩ hitem fields rfl
        exact h hcontext fields (List.fst_mem_of_mem_zipIdx hitem)
    | _ => simp [ReadableLD]

theorem attributes_readItem {orders : Orders} {k : String} {ce ce' : ContextElement}
    {item : Value × Nat} (h : readItem orders k ce item = .ok ce') :
    ∀ a ∈ ce.attributes, a ∈ ce'.attributes := by
  obtain ⟨v, i⟩ := item
  cases v with
  | object fields =>
    obtain ⟨attr, -, hce⟩ := bind_eq_ok.mp h
    rw [← Except.ok.inj hce, ContextElement.addAttribute]
    split_ifs
    · exact fun a ha => List.mem_append_left _ ha
    · exact fun a ha => ha
  | _ =>
    rw [← Except.ok.inj h]
    exact fun a ha => ha

theorem readObject_adds {orders : Orders} {k : String} {ce ce' : ContextElement}
    {fields : List (String × Value)} {i : Nat} (hk : k ≠ "")
    (hwell : WellFormedAttribute (ofFields fields))
    (h : readItem orders k ce (.object fields, i) = .ok ce') :
    ∃ a ∈ ce'.attributes, a.name = k := by
  obtain ⟨s, hs, hvalue⟩ := hwell
  obtain ⟨attr, hattr, hce⟩ := bind_eq_ok.mp h
  obtain ⟨attrType, htype, hrest⟩ := bind_eq_ok.mp hattr
  obtain rfl := Value.string.inj ((asString_eq_ok.mp htype).symm.trans hs)
  have hvalid : attr.name = k ∧ attr.type ≠ "" ∧ attr.value ≠ .null := by
    dsimp only at hrest
    rcases hvalue with ⟨hproperty, hvalue⟩ | ⟨hrelationship, hobject⟩
    · rw [if_pos hproperty] at hrest
      rw [← Except.ok.inj hrest]
      refine ⟨rfl, ?_, hvalue⟩
      dsimp only
      cases valueAt (ofFields fields) "value" <;> simp [attributeType]
    · have hproperty : toLower attrType ≠ "property" := by
        rw [hrelationship]
        decide
      rw [if_neg hproperty, if_pos hrelationship] at hrest
      rw [← Except.ok.inj hrest]
      exact ⟨rfl, by simp, hobject⟩
  rw [← Except.ok.inj hce, ContextElement.addAttribute, if_pos ⟨hvalid.1 ▸ hk, hvalid.2⟩]
  exact ⟨attr, by simp, hvalid.1⟩

theorem attributes_readItems {orders : Orders} {k : String} {ce ce' : ContextElement}
    {items : List (Value × Nat)} (h : items.foldlM (readItem orders k) ce = .ok ce') :
    ∀ a ∈ ce.attributes, a ∈ ce'.attributes :=
  foldlM_invariant (I := fun _ acc => ∀ a ∈ ce.attributes, a ∈ acc.attributes) h
    (fun _ ha => ha) (fun _ _ _ _ _ _ hacc hnext a ha => attributes_readItem hnext a (hacc a ha))

theorem readItems_add {orders : Orders} {k : String} {ce ce' : ContextElement}
    {items : List (Value × Nat)} {fields : List (String × Value)} {i : Nat} (hk : k ≠ "")
    (h : items.foldlM (readItem orders k) ce = .ok ce') (hmem : (.object fields, i) ∈ items)
    (hwell : WellFormedAttribute (ofFields fields)) : ∃ a ∈ ce'.attributes, a.name = k := by
  obtain ⟨pre, post, rfl⟩ := List.append_of_mem hmem
  rw [List.foldlM_append] at h
  obtain ⟨acc, -, h⟩ := bind_eq_ok.mp h
  rw [List.foldlM_cons] at h
  obtain ⟨next, hnext, hpost⟩ := bind_eq_ok.mp h
  obtain ⟨a, ha, hname⟩ := readObject_adds hk hwell hnext
  exact ⟨a, attributes_readItems hpost a ha, hname⟩

theorem readEntry_readsMember {orders : Orders} {ce ce' : ContextElement} {k : String}
    {v : Value} (h : readEntry orders ce ⟨k, v⟩ = .ok ce') : ReadsMember WellFormedLD k v ce ce' := by
  unfold readEntry at h
  dsimp only at h
  split at h
  next hid =>
    obtain ⟨id, hv, hce⟩ := bind_eq_ok.mp h
    obtain rfl := asString_eq_ok.mp hv
    rw [← Except.ok.inj hce]
    exact ⟨by simp [hid, textOf], by simp [hid], fun _ ha => ha,
      fun hwell => absurd hwell.2.1 (by simp [hid])⟩
  next htype =>
    obtain ⟨type, hv, hce⟩ := bind_eq_ok.mp h
    obtain rfl := asString_eq_ok.mp hv
    rw [← Except.ok.inj hce]
    exact ⟨by simp [htype], by simp [htype, textOf], fun _ ha => ha,
      fun hwell => absurd hwell.2.1 (by simp [htype])⟩
  next hcontext =>
    rw [← Except.ok.inj h]
    exact ⟨by simp [hcontext], by simp [hcontext], fun _ ha => ha,
      fun hwell => absurd hwell.2.1 (by simp [hcontext])⟩
  next hid htype hcontext =>
    cases v with
    | object fields =>
      obtain ⟨ce₁, hitem, h⟩ := bind_eq_ok.mp h
      have hentity := (readItem_frame hitem).2
      have hkept := attributes_readItem hitem
      have hadded : WellFormedLD k (.object fields) → ∃ a ∈ ce₁.attributes, a.name = k := by
        rintro ⟨hk, -, ⟨fields', heq, hwell⟩ | ⟨items, fields', heq, -⟩⟩
        · rw [← Value.object.inj heq] at hwell
          exact readObject_adds hk hwell hitem
        · cases heq
      have hsame : ce'.entity = ce₁.entity ∧ ce'.attributes = ce₁.attributes := by
        split_ifs at h
        · obtain ⟨metadata, -, hce⟩ := bind_eq_ok.mp h
          rw [← Except.ok.inj hce]
          exact ⟨rfl, rfl⟩
        · obtain ⟨_, -, hce⟩ := bind_eq_ok.mp h
          rw [← Except.ok.inj hce]
          exact ⟨rfl, rfl⟩
      refine ⟨?_, ?_, ?_, ?_⟩
      · rw [hsame.1, hentity, if_neg hid]
      · rw [hsame.1, hentity, if_neg htype]
      · rw [hsame.2]
        exact hkept
      · rw [hsame.2]
        exact hadded
    | array items =>
      have hentity := (readItems_frame h).2
      refine ⟨by rw [hentity, if_neg hid], by rw [hentity, if_neg htype],
        attributes_readItems h, ?_⟩
      rintro ⟨hk, -, ⟨fields, heq, -⟩ | ⟨items', fields, heq, hmem, hwell⟩⟩
      · cases heq
      · rw [← Value.array.inj heq] at hmem
        obtain ⟨i, hi⟩ := List.mem_iff_getElem?.mp hmem
        exact readItems_add hk h (List.mk_mem_zipIdx_iff_getElem?.mpr hi) hwell
    | _ =>
      rw [← Except.ok.inj h]
      refine ⟨(if_neg hid).symm, (if_neg htype).symm, fun a ha => ha, ?_⟩
      rintro ⟨-, -, ⟨fields, heq, -⟩ | ⟨items, fields, heq, -⟩⟩ <;> cases heq

theorem memberDecoderLD (orders : Orders) :
    MemberDecoder (readEntry orders) ReadableLD WellFormedLD :=
  ⟨readEntry_ends orders, fun _ _ _ _ => readEntry_readsMember⟩

theorem memberDecoderV2 (orders : OrdersV2) :
    MemberDecoder (readEntryV2 orders) ReadableV2 WellFormedV2 :=
  ⟨readEntryV2_ends orders, fun _ _ _ _ => readEntryV2_readsMember⟩

-- the speed is an attribute whose type the client has left out
def untypedSpeed : GoMap Value :=
  ofFields [("id", .string "Car.1"), ("type", .string "Car"),
    ("speed", .object [("value", .number 9)])]

end FogFlow.Broker.EntityDecoding
