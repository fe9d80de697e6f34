import FogFlow.Library.JsonText
import FogFlow.Master.Hash
import FogFlow.Ngsi.MetadataJson

namespace FogFlow.Master

open Ngsi Datamodel
open JsonText (StringText ObjectText)

def GroupValue.toJson (rawMessage : String → Json) : GroupValue → Json
  | .text s => .string s
  | .metadata m => m.toJson rawMessage

-- equal once each object is a map
def SameJson (rawMessage : String → Json) (v v' : GroupValue) : Prop :=
  unmarshal (v.toJson rawMessage) = unmarshal (v'.toJson rawMessage)

instance (rawMessage : String → Json) (v v' : GroupValue) : Decidable (SameJson rawMessage v v') :=
  inferInstanceAs (Decidable (_ = _))

-- what GetHash feeds to the hash function
def groupText (marshal : GroupValue → String) (rank : String → Nat) (group : GroupInfo) : String :=
  (sortedPairs (group.range rank)).foldl (fun text pair => text ++ marshal pair.2) ""

theorem getHash_eq_hash (marshal : GroupValue → String) (rank : String → Nat) (group : GroupInfo) :
    getHash marshal rank group = sprintf08d (hash (groupText marshal rank group)) := rfl

def Carries (group : GroupInfo) (v : GroupValue) : Prop := ∃ k, group.get k = some v

-- what json.Marshal does with the values of two groups
structure Marshals (rawMessage : String → Json) (marshal : GroupValue → String)
    (g g' : GroupInfo) : Prop where
  string : ∀ s, Carries g (.text s) ∨ Carries g' (.text s) → StringText (marshal (.text s)).toList
  object : ∀ m, Carries g (.metadata m) ∨ Carries g' (.metadata m) →
    ObjectText (marshal (.metadata m)).toList
  faithful : ∀ v v', Carries g v → Carries g' v' → (marshal v = marshal v' ↔ SameJson rawMessage v v')

section Text

variable {rawMessage : String → Json} {marshal : GroupValue → String} {g g' : GroupInfo}
  {rank rank' : String → Nat}

def wordAt (marshal : GroupValue → String) (group : GroupInfo) (k : String) : List Char :=
  ((group.get k).map (fun v => (marshal v).toList)).getD []

def sortedKeys (rank : String → Nat) (group : GroupInfo) : List String :=
  (sortedPairs (group.range rank)).map (fun pair => pair.1)

theorem mem_sortedPairs {pair : KVPair} :
    pair ∈ sortedPairs (g.range rank) ↔ g.get pair.1 = some pair.2 :=
  (sortedPairs_perm _).mem_iff.trans GoMap.mem_range

theorem mem_sortedKeys {k : String} : k ∈ sortedKeys rank g ↔ ∃ v, g.get k = some v := by
  rw [sortedKeys, List.mem_map]
  constructor
  · rintro ⟨pair, hpair, rfl⟩
    exact ⟨pair.2, mem_sortedPairs.mp hpair⟩
  · rintro ⟨v, hv⟩
    exact ⟨⟨k, v⟩, mem_sortedPairs.mpr hv, rfl⟩

theorem groupText_toList :
    (groupText marshal rank g).toList = ((sortedKeys rank g).map (wordAt marshal g)).flatten := by
  have hfold (pairs : List KVPair) (text : String) :
      (pairs.foldl (fun text pair => text ++ marshal pair.2) text).toList =
        text.toList ++ (pairs.map (fun pair => (marshal pair.2).toList)).flatten := by
    induction pairs generalizing text with
    | nil => simp
    | cons pair pairs ih =>
      rw [List.foldl_cons, ih, String.toList_append, List.append_assoc, List.map_cons,
        List.flatten_cons]
  have hwords : (sortedKeys rank g).map (wordAt marshal g) =
      (sortedPairs (g.range rank)).map (fun pair => (marshal pair.2).toList) := by
    rw [sortedKeys, List.map_map]
    refine List.map_congr_left (fun pair hpair => ?_)
    rw [Function.comp_apply, wordAt, mem_sortedPairs.mp hpair]
    rfl
  rw [groupText, hfold, hwords]
  rfl

theorem sortedKeys_eq (hkeys : ∀ k, (g.get k).isSome = (g'.get k).isSome) :
    sortedKeys rank g = sortedKeys rank' g' := by
  have hsorted (rank : String → Nat) (group : GroupInfo) :
      (sortedKeys rank group).Pairwise (fun a b => a < b) :=
    List.pairwise_map.mpr (sortedPairs_sorted (GoMap.range_keys_nodup rank group))
  have hperm : (sortedKeys rank g).Perm (sortedKeys rank' g') := by
    refine (List.perm_ext_iff_of_nodup (hsorted rank g).nodup (hsorted rank' g').nodup).mpr
      (fun k => ?_)
    rw [mem_sortedKeys, mem_sortedKeys, ← Option.isSome_iff_exists, ← Option.isSome_iff_exists,
      hkeys k]
  exact hperm.eq_of_pairwise (fun a b _ _ hab hba => absurd hab hba.not_gt) (hsorted rank g)
    (hsorted rank' g')

theorem words_decodable (hm : Marshals rawMessage marshal g g') {k : String} {v : GroupValue}
    (hv : g.get k = some v ∨ g'.get k = some v) :
    StringText (marshal v).toList ∨ ObjectText (marshal v).toList := by
  have hcarries : Carries g v ∨ Carries g' v := hv.imp (fun h => ⟨k, h⟩) (fun h => ⟨k, h⟩)
  cases v with
  | text s => exact .inl (hm.string s hcarries)
  | metadata m => exact .inr (hm.object m hcarries)

theorem same_text_iff_wordAt (hkeys : ∀ k, (g.get k).isSome = (g'.get k).isSome)
    (hm : Marshals rawMessage marshal g g') :
    groupText marshal rank g = groupText marshal rank' g' ↔
      ∀ k ∈ sortedKeys rank g, wordAt marshal g k = wordAt marshal g' k := by
  rw [← String.toList_inj, groupText_toList, groupText_toList, ← sortedKeys_eq hkeys,
    ← List.map_inj_left]
  refine ⟨?_, fun h => by rw [h]⟩
  have hword {group : GroupInfo} (hgroup : ∀ k v, group.get k = some v →
      StringText (marshal v).toList ∨ ObjectText (marshal v).toList)
      (hall : ∀ k ∈ sortedKeys rank g, (group.get k).isSome) :
      ∀ w ∈ (sortedKeys rank g).map (wordAt marshal group), StringText w ∨ ObjectText w := by
    intro w hw
    obtain ⟨k, hk, rfl⟩ := List.mem_map.mp hw
    obtain ⟨v, hv⟩ := Option.isSome_iff_exists.mp (hall k hk)
    rw [wordAt, hv]
    exact hgroup k v hv
  have hsome : ∀ k ∈ sortedKeys rank g, (g.get k).isSome :=
    fun k hk => Option.isSome_iff_exists.mpr (mem_sortedKeys.mp hk)
  refine JsonText.uniquelyDecodable _ _ (hword (fun k v hv => words_decodable hm (.inl hv)) hsome)
    (hword (fun k v hv => words_decodable hm (.inr hv)) (fun k hk => ?_))
  rw [← hkeys k]
  exact hsome k hk

theorem wordAt_eq_iff (hm : Marshals rawMessage marshal g g') {k : String} {v v' : GroupValue}
    (hv : g.get k = some v) (hv' : g'.get k = some v') :
    wordAt marshal g k = wordAt marshal g' k ↔ SameJson rawMessage v v' := by
  rw [wordAt, wordAt, hv, hv', ← hm.faithful v v' ⟨k, hv⟩ ⟨k, hv'⟩]
  exact String.toList_inj

end Text

theorem same_text_iff {rawMessage : String → Json} {marshal : GroupValue → String}
    {g g' : GroupInfo} (hkeys : ∀ k, (g.get k).isSome = (g'.get k).isSome)
    (hm : Marshals rawMessage marshal g g') (rank rank' : String → Nat) :
    (groupText marshal rank g = groupText marshal rank' g' ↔
      ∀ k v v', g.get k = some v → g'.get k = some v' → SameJson rawMessage v v') ∧
      ((∀ k v v', g.get k = some v → g'.get k = some v' → SameJson rawMessage v v') →
        getHash marshal rank g = getHash marshal rank' g') := by
  have htext : groupText marshal rank g = groupText marshal rank' g' ↔
      ∀ k v v', g.get k = some v → g'.get k = some v' → SameJson rawMessage v v' := by
    rw [same_text_iff_wordAt hkeys hm]
    constructor
    · intro h k v v' hv hv'
      exact (wordAt_eq_iff hm hv hv').mp (h k (mem_sortedKeys.mpr ⟨v, hv⟩))
    · intro h k hk
      obtain ⟨v, hv⟩ := mem_sortedKeys.mp hk
      obtain ⟨v', hv'⟩ := Option.isSome_iff_exists.mp ((hkeys k).symm.trans (by rw [hv]; rfl))
      exact (wordAt_eq_iff hm hv hv').mpr (h k v v' hv hv')
  refine ⟨htext, fun hsame => ?_⟩
  rw [getHash_eq_hash, getHash_eq_hash, htext.mpr hsame]

def placeOf (place : String) : GroupValue := .metadata ⟨"place", "string", .string place, .null⟩

def placeGroup (place : String) : GroupInfo :=
  ((∅ : GroupInfo).set "Car-place" (placeOf place)).set "Car-EntityID" (.text "car1")

-- the texts of json.Marshal for names and values that need no escapes
def plainMarshal : GroupValue → String
  | .text s => String.ofList (JsonText.quoted s.toList)
  | .metadata m => String.ofList (JsonText.objectText [
      ("name".toList, JsonText.quoted m.name.toList), ("type".toList, JsonText.quoted m.type.toList),
      ("value".toList, match m.value with
        | .string s => JsonText.quoted s.toList
        | _ => "null".toList)])

theorem carries_placeGroup {place : String} {v : GroupValue} (h : Carries (placeGroup place) v) :
    v = .text "car1" ∨ v = placeOf place := by
  obtain ⟨k, hk⟩ := h
  rw [placeGroup, GoMap.get_set, GoMap.get_set] at hk
  split_ifs at hk
  · exact .inl (Option.some.inj hk).symm
  · exact .inr (Option.some.inj hk).symm
  · cases hk

theorem objectText_placeOf {place : String}
    (hplain : (place.toList.all fun c => c != JsonText.quote && c != JsonText.backslash) = true) :
    ObjectText (plainMarshal (placeOf place)).toList := by
  have hbody : JsonText.StringBody place.toList := JsonText.stringBody_of_plain hplain
  refine ⟨_, ?_, ?_, String.toList_ofList⟩
  · simp only [List.forall_mem_cons, List.not_mem_nil, false_implies, implies_true, and_true]
    exact ⟨JsonText.stringBody_of_plain (by decide), JsonText.stringBody_of_plain (by decide),
      JsonText.stringBody_of_plain (by decide)⟩
  · simp only [List.forall_mem_cons, List.not_mem_nil, false_implies, implies_true, and_true]
    exact ⟨.string (JsonText.stringBody_of_plain (by decide)),
      .string (JsonText.stringBody_of_plain (by decide)), .string hbody⟩

theorem plainMarshal_places : Marshals (fun _ => .null) plainMarshal (placeGroup "home")
    (placeGroup "work") where
  string := by
    intro s hs
    have hcar : s = "car1" := by
      rcases hs with hs | hs
      · rcases carries_placeGroup hs with h | h <;> cases h
        rfl
      · rcases carries_placeGroup hs with h | h <;> cases h
        rfl
    subst hcar
    exact ⟨"car1".toList, JsonText.stringBody_of_plain (by decide), String.toList_ofList⟩
  object := by
    intro m hm
    have hhome : ObjectText (plainMarshal (placeOf "home")).toList := objectText_placeOf (by decide)
    have hwork : ObjectText (plainMarshal (placeOf "work")).toList := objectText_placeOf (by decide)
    rcases hm with hm | hm
    · rcases carries_placeGroup hm with h | h <;> cases h
      exact hhome
    · rcases carries_placeGroup hm with h | h <;> cases h
      exact hwork
  faithful := by
    intro v v' hv hv'
    rcases carries_placeGroup hv with rfl | rfl
    · rcases carries_placeGroup hv' with rfl | rfl
      · exact iff_of_true rfl rfl
      · exact iff_of_false (by decide) (by decide)
    · rcases carries_placeGroup hv' with rfl | rfl
      · exact iff_of_false (by decide) (by decide)
      · exact iff_of_false (by decide) (by decide)

theorem places_have_different_texts :
    groupText plainMarshal (fun _ => 0) (placeGroup "home") ≠
      groupText plainMarshal String.length (placeGroup "work") := by
  have hkeys : ∀ k, ((placeGroup "home").get k).isSome = ((placeGroup "work").get k).isSome := by
    intro k
    rw [placeGroup, placeGroup, GoMap.get_set, GoMap.get_set, GoMap.get_set, GoMap.get_set]
    split_ifs <;> rfl
  intro heq
  have hsame := (same_text_iff hkeys plainMarshal_places (fun _ => 0) String.length).1.mp heq
  have hplace := hsame "Car-place" (placeOf "home") (placeOf "work") (by decide) (by decide)
  exact absurd hplace (by decide)

end FogFlow.Master
