import FogFlow.Discovery.Geolocation

namespace FogFlow.Discovery

open Ngsi Loop

-- regexp.MatchString without its error, for which it does not match
abbrev MatchString := String → String → Bool

def matchEntityId (matchString : MatchString) (entity subscribedEntity : EntityId) : Bool :=
  if subscribedEntity.isPattern then
    (subscribedEntity.id == "" || matchString subscribedEntity.id entity.id) &&
      (subscribedEntity.type == "" || matchString subscribedEntity.type entity.type)
  else if subscribedEntity.type ≠ "" then
    subscribedEntity.type == entity.type && subscribedEntity.id == entity.id
  else subscribedEntity.id == entity.id

def matchAttributes (registeredAttributes : GoMap ContextRegistrationAttribute)
    (requiredAttributeNames : List String) : Bool :=
  requiredAttributeNames.all (fun attrName => (registeredAttributes.get attrName).isSome)

def asPoint : Value → Except Fault Point
  | .point p => .ok p
  | _ => .error .typeAssertion

def asCircle : Value → Except Fault Ngsi.Circle
  | .circle c => .ok c
  | _ => .error .typeAssertion

def asPolygon : Value → Except Fault Polygon
  | .polygon p => .ok p
  | _ => .error .typeAssertion

def asString : Value → Except Fault String
  | .string s => .ok s
  | _ => .error .typeAssertion

variable (math : FloatMath)

def pointInCircle (point : Point) (circle : Ngsi.Circle) : Bool :=
  decide (math.distance point ⟨circle.latitude, circle.longitude⟩ ≤ math.uint64 circle.radius)

def pointInPolygon (point : Point) (polygon : Polygon) : Except Fault Bool :=
  raycast math point polygon.vertices

def matchCircle (metas : List ContextMetadata) (value : Value) : Except Fault Bool :=
  metas.allM (fun metadata =>
    if metadata.type = "point" then do
      let point ← asPoint metadata.value
      let circle ← asCircle value
      .ok (pointInCircle math point circle)
    else .ok true)

def matchPolygon (metas : List ContextMetadata) (value : Value) : Except Fault Bool :=
  metas.allM (fun metadata =>
    if metadata.type = "point" then do
      let point ← asPoint metadata.value
      let polygon ← asPolygon value
      pointInPolygon math point polygon
    else .ok true)

def matchConstraint (metas : List ContextMetadata) (constraint : String) : Except Fault Bool := do
  let items := strSplit constraint "="
  let attrName ← index items 0
  let attrValue ← index items 1
  let same ← metas.allM (fun metadata =>
    if metadata.name = attrName then metadata.value.goEq (.string attrValue) else .ok true)
  .ok (same && metas.any (fun metadata => metadata.name == attrName))

-- every loop over the metadata map has an order of its own
abbrev MetaRank := Nat → Nat → String → Nat

def metas (metaRank : String → Nat) (metadatas : GoMap ContextMetadata) : List ContextMetadata :=
  (metadatas.range metaRank).map (fun e => e.2)

def matchStringQuery (metaRank : Nat → String → Nat) (metadatas : GoMap ContextMetadata)
    (value : Value) : Except Fault Bool := do
  let queryString ← asString value
  (strSplit queryString ";").zipIdx.allM (fun constraint =>
    matchConstraint (metas (metaRank constraint.2) metadatas) constraint.1)

def matchScope (metaRank : Nat → String → Nat) (metadatas : GoMap ContextMetadata)
    (scope : OperationScope) : Except Fault Bool :=
  if toLower scope.type = "circle" then matchCircle math (metas (metaRank 0) metadatas) scope.value
  else if toLower scope.type = "polygon" then
    matchPolygon math (metas (metaRank 0) metadatas) scope.value
  else if toLower scope.type = "stringquery" then matchStringQuery metaRank metadatas scope.value
  else .ok true

def matchMetadatas (metaRank : MetaRank) (metadatas : GoMap ContextMetadata)
    (restriction : Restriction) : Except Fault Bool :=
  restriction.scopes.zipIdx.allM (fun scope => matchScope math (metaRank scope.2) metadatas scope.1)

-- the coordinates of the location metadata, or its value where it has none
def coordinateOf (metadatas : GoMap ContextMetadata) : Value :=
  match metadatas.get "location" with
  | some metadata => if metadata.cordinates = .null then metadata.value else metadata.cordinates
  | none => .null

def typeOf (metadatas : GoMap ContextMetadata) : String :=
  match metadatas.get "location" with
  | some metadata => metadata.type
  | none => ""

def matchDistance (distMi : math.float64) (contrains : List String) : Except Fault Bool :=
  match contrains with
  | _ :: contrain :: _ => do
      let minMax := strSplit (removeSpaces contrain) "=="
      let name ← index minMax 0
      if name = "maxDistance" then do
        let maxDistance ← index minMax 1
        .ok (math.lessThan distMi (math.parseFloat maxDistance))
      else if name = "minDistance" then do
        let minDistance ← index minMax 1
        .ok (math.lessThan (math.parseFloat minDistance) distMi)
      else .ok false
  | _ => .ok false

def matchLdMetadatas (metadatas : GoMap ContextMetadata) (restriction : Restriction) :
    Except Fault Bool :=
  if restriction.georel = "" then .ok true
  else if coordinateOf metadatas = .null then .ok false
  else if toLower restriction.geometry = "point" then do
    let contrains := strSplit restriction.georel ";"
    let distMi ← findDistForPoint math (typeOf metadatas) (coordinateOf metadatas)
      restriction.cordinates
    matchDistance math distMi contrains
  else if toLower restriction.geometry = "polygon" then
    findDistForPolygon math (typeOf metadatas) (coordinateOf metadatas) restriction
  else .ok false

def matchIds (matchString : MatchString) (registration : EntityRegistration)
    (idFilter : List EntityId) : Bool :=
  idFilter.any (matchEntityId matchString ⟨registration.type, false, registration.id⟩)

def matchingWithFilters (matchString : MatchString) (metaRank : MetaRank)
    (registration : EntityRegistration) (idFilter : List EntityId) (attrFilter : List String)
    (metaFilter : Restriction) : Except Fault Bool :=
  if matchIds matchString registration idFilter = false then .ok false
  else if matchAttributes registration.attributesList attrFilter = false then .ok false
  else if metaFilter.restrictionType = "ld" then
    matchLdMetadatas math registration.metadataList metaFilter
  else matchMetadatas math metaRank registration.metadataList metaFilter

variable {math}

@[simp] theorem mem_metas {metaRank : String → Nat} {metadatas : GoMap ContextMetadata}
    {metadata : ContextMetadata} :
    metadata ∈ metas metaRank metadatas ↔ metadata ∈ metadatas.values := by
  simp only [metas, List.mem_map, GoMap.mem_values]
  constructor
  · rintro ⟨⟨k, v⟩, he, rfl⟩
    exact ⟨k, GoMap.mem_range.mp he⟩
  · rintro ⟨k, hk⟩
    exact ⟨⟨k, metadata⟩, GoMap.mem_range.mpr hk, rfl⟩

theorem goEq_string (v : Value) (s : String) : v.goEq (.string s) = .ok (decide (v = .string s)) := by
  cases v <;> rfl

theorem asPoint_eq_ok {v : Value} {p : Point} : asPoint v = .ok p ↔ v = .point p := by
  cases v <;> simp [asPoint]

theorem asCircle_eq_ok {v : Value} {c : Ngsi.Circle} : asCircle v = .ok c ↔ v = .circle c := by
  cases v <;> simp [asCircle]

theorem asPolygon_eq_ok {v : Value} {p : Polygon} : asPolygon v = .ok p ↔ v = .polygon p := by
  cases v <;> simp [asPolygon]

theorem asString_eq_ok {v : Value} {s : String} : asString v = .ok s ↔ v = .string s := by
  cases v <;> simp [asString]

def ConstraintHolds (metadatas : GoMap ContextMetadata) (constraint : String) : Prop :=
  ∃ attrName attrValue rest, strSplit constraint "=" = attrName :: attrValue :: rest ∧
    (∃ metadata ∈ metadatas.values, metadata.name = attrName) ∧
    ∀ metadata ∈ metadatas.values, metadata.name = attrName → metadata.value = .string attrValue

variable (math) in
def ScopeHolds (metadatas : GoMap ContextMetadata) (scope : OperationScope) : Prop :=
  (toLower scope.type = "circle" → ∀ metadata ∈ metadatas.values, metadata.type = "point" →
    ∃ p c, metadata.value = .point p ∧ scope.value = .circle c ∧ pointInCircle math p c = true) ∧
  (toLower scope.type = "polygon" → ∀ metadata ∈ metadatas.values, metadata.type = "point" →
    ∃ p g, metadata.value = .point p ∧ scope.value = .polygon g ∧
      pointInPolygon math p g = .ok true) ∧
  (toLower scope.type = "stringquery" → ∃ q, scope.value = .string q ∧
    ∀ constraint ∈ strSplit q ";", ConstraintHolds metadatas constraint)

theorem index_zero_one {items : List String} {f : String → String → Except Fault Bool} {b : Bool} :
    (index items 0 >>= fun x => index items 1 >>= fun y => f x y) = .ok b ↔
      ∃ x y rest, items = x :: y :: rest ∧ f x y = .ok b := by
  match items with
  | [] => simp [index, bind_eq_ok]
  | [x] => simp [index, bind_eq_ok]
  | x :: y :: rest =>
    have h0 : index (x :: y :: rest) 0 = .ok x := rfl
    have h1 : index (x :: y :: rest) 1 = .ok y := rfl
    rw [h0, h1, ok_bind, ok_bind]
    simp

theorem matchConstraint_eq_true {metaRank : String → Nat} {metadatas : GoMap ContextMetadata}
    {constraint : String} :
    matchConstraint (metas metaRank metadatas) constraint = .ok true ↔
      ConstraintHolds metadatas constraint := by
  unfold matchConstraint ConstraintHolds
  rw [index_zero_one]
  refine exists_congr (fun n => exists_congr (fun v => exists_congr (fun rest =>
    and_congr_right (fun _ => ?_))))
  rw [bind_eq_ok]
  constructor
  · rintro ⟨same, hsame, hb⟩
    obtain ⟨rfl, hfound⟩ : same = true ∧
        (metas metaRank metadatas).any (fun metadata => metadata.name == n) = true := by
      simpa using hb
    rw [allM_eq_true] at hsame
    refine ⟨by simpa using hfound, fun metadata hm hn => ?_⟩
    have heq := hsame metadata (mem_metas.mpr hm)
    rw [if_pos hn, goEq_string] at heq
    simpa using heq
  · rintro ⟨hfound, hall⟩
    refine ⟨true, allM_eq_true.mpr (fun metadata hm => ?_), by simpa using hfound⟩
    split_ifs with hn
    · rw [goEq_string, hall metadata (mem_metas.mp hm) hn]
      simp
    · rfl

theorem matchScope_eq_true {metaRank : Nat → String → Nat} {metadatas : GoMap ContextMetadata}
    {scope : OperationScope} :
    matchScope math metaRank metadatas scope = .ok true ↔ ScopeHolds math metadatas scope := by
  unfold matchScope ScopeHolds
  split_ifs with hcircle hpolygon hquery
  · simp only [hcircle, matchCircle, allM_eq_true, mem_metas, true_implies]
    simp only [String.reduceEq, false_implies, and_true]
    refine forall_congr' (fun metadata => forall_congr' (fun _ => ?_))
    split_ifs with hp
    · simp [hp, bind_eq_ok, asPoint_eq_ok, asCircle_eq_ok]
    · simp [hp]
  · simp only [hpolygon, matchPolygon, allM_eq_true, mem_metas, true_implies]
    simp only [String.reduceEq, false_implies, and_true, true_and]
    refine forall_congr' (fun metadata => forall_congr' (fun _ => ?_))
    split_ifs with hp
    · simp [hp, bind_eq_ok, asPoint_eq_ok, asPolygon_eq_ok]
    · simp [hp]
  · simp only [hquery, matchStringQuery, bind_eq_ok, asString_eq_ok, true_implies]
    simp only [String.reduceEq, false_implies, true_and]
    refine exists_congr (fun q => and_congr_right (fun _ => ?_))
    exact allM_zipIdx_eq_true (fun _ _ _ => matchConstraint_eq_true)
  · simp [hcircle, hpolygon, hquery]

theorem matchMetadatas_eq_true {metaRank : MetaRank} {metadatas : GoMap ContextMetadata}
    {restriction : Restriction} :
    matchMetadatas math metaRank metadatas restriction = .ok true ↔
      ∀ scope ∈ restriction.scopes, ScopeHolds math metadatas scope :=
  allM_zipIdx_eq_true (fun _ _ _ => matchScope_eq_true)

-- a match does not depend on the order in which the metadata are visited
theorem matchingWithFilters_rank {matchString : MatchString} {metaRank metaRank' : MetaRank}
    {registration : EntityRegistration} {idFilter : List EntityId} {attrFilter : List String}
    {metaFilter : Restriction}
    (h : matchingWithFilters math matchString metaRank registration idFilter attrFilter metaFilter =
      .ok true) :
    matchingWithFilters math matchString metaRank' registration idFilter attrFilter metaFilter =
      .ok true := by
  unfold matchingWithFilters at h ⊢
  split_ifs at h ⊢ with hid hattr hld
  · exact h
  · exact h
  · exact h
  · exact matchMetadatas_eq_true.mpr (matchMetadatas_eq_true.mp h)

end FogFlow.Discovery
