import FogFlow.Library.Loop
import FogFlow.Library.Split
import FogFlow.Ngsi.Context

namespace FogFlow.Discovery

open Ngsi Loop

-- the floating-point computations, none of which can fail
structure FloatMath where
  float64 : Type
  zero : float64
  lessThan : float64 → float64 → Bool
  parseFloat : String → float64
  uint64 : ℚ → Nat
  distance : Point → Point → Nat
  ldDistance : Point → Point → float64
  intersectsWithRaycast : Point → Point → Point → Bool

-- a world in which all places coincide
def exampleMath : FloatMath where
  float64 := ℚ
  zero := 0
  lessThan a b := decide (a < b)
  parseFloat _ := 0
  uint64 q := q.floor.toNat
  distance _ _ := 0
  ldDistance _ _ := 0
  intersectsWithRaycast _ _ _ := false

def strSplit (s sep : String) : List String :=
  (Split.split sep.toList s.toList).map String.ofList

def removeSpaces (s : String) : String := String.ofList (s.toList.filter (fun c => c != ' '))

def asFloat : Value → Except Fault ℚ
  | .number q => .ok q
  | _ => .error .typeAssertion

def asSlice : Value → Except Fault (List Value)
  | .array items => .ok items
  | _ => .error .typeAssertion

-- nothing stores the unexported point type of the geolocation package behind an interface
def asGeoPoint : Value → Except Fault Point := fun _ => .error .typeAssertion

def firstTwo (items : List Value) : Except Fault Point := do
  let latitude ← index items 0 >>= asFloat
  let longitude ← index items 1 >>= asFloat
  .ok ⟨latitude, longitude⟩

variable (math : FloatMath)

def entityPoint (metadatas : Value) : Except Fault Point :=
  match metadatas with
  | .array items => if items.length = 2 then firstTwo items else .ok ⟨0, 0⟩
  | .point p => .ok p
  | _ => .ok ⟨0, 0⟩

def distForPoint (typ : String) (metadatas loc : Value) : Except Fault math.float64 := do
  let p1 ← entityPoint metadatas
  if toLower typ = "point" then do
    let locn ← asSlice loc
    let p2 ← firstTwo locn
    .ok (math.ldDistance p1 p2)
  else .ok math.zero

def findDistForPoint (typ : String) (metaData loc : Value) : Except Fault math.float64 :=
  if toLower typ = "point" then distForPoint math typ metaData loc else .ok math.zero

def convertInStructure (coor : Value) : Except Fault (List Point) := do
  let coorA ← asSlice coor
  coorA.foldlM (fun res val => do
    let geo ← asSlice val >>= firstTwo
    .ok (res ++ [geo])) []

-- every ring replaces the one before it
def convertRings (polygon : Value) : Except Fault (List Point) :=
  if polygon = .null then .ok [] else do
    let rings ← asSlice polygon
    rings.foldlM (fun _ val => convertInStructure val) []

def commonConverter (entityP queryP : Value) : Except Fault (List Point × List Point) := do
  let entityMeta ← convertRings entityP
  let queryMeta ← convertRings queryP
  .ok (entityMeta, queryMeta)

-- the body that PointInPolygon and isInside share; an empty polygon has no vertex at -1
def raycast (point : Point) (vertices : List Point) : Except Fault Bool :=
  match vertices.getLast?, vertices.head? with
  | some start, some end_ =>
      .ok ((vertices.zip vertices.tail).foldl (fun contains edge =>
        if math.intersectsWithRaycast point edge.1 edge.2 then !contains else contains)
        (math.intersectsWithRaycast point start end_))
  | _, _ => .error .indexOutOfRange

def isInside (point : Point) (polygon : List Point) : Except Fault Bool := raycast math point polygon

def checkEquals (entityP queryP : Value) : Except Fault Bool := do
  let (entityMeta, queryMeta) ← commonConverter entityP queryP
  if entityMeta.length ≠ queryMeta.length then .ok false
  else .ok (entityMeta.all (fun val => queryMeta.contains val))

def checkDisjoint (entityP queryP : Value) : Except Fault Bool := do
  let (entityMeta, queryMeta) ← commonConverter entityP queryP
  queryMeta.allM (fun val => do
    let status ← isInside math val entityMeta
    .ok (!status))

def checkWithin (entityP queryP : Value) : Except Fault Bool := do
  let (entityMeta, queryMeta) ← commonConverter entityP queryP
  queryMeta.allM (fun val => isInside math val entityMeta)

def checkContains (entityP queryP : Value) : Except Fault Bool := do
  let (entityMeta, queryMeta) ← commonConverter entityP queryP
  entityMeta.allM (fun val => isInside math val queryMeta)

def checkPoint (metaPoint : Point) (queryP : Value) : Except Fault Bool := do
  let (_, queryMeta) ← commonConverter .null queryP
  isInside math metaPoint queryMeta

def findDistForPolygon (typ : String) (metaData : Value) (res : Restriction) :
    Except Fault Bool :=
  let geoRel := removeSpaces res.georel
  if toLower typ = "point" then do
    let metaPoint ← asGeoPoint metaData
    checkPoint math metaPoint res.cordinates
  else if toLower typ = "polygon" then
    if geoRel = "equals" then checkEquals metaData res.cordinates
    else if geoRel = "disjoint" then checkDisjoint math metaData res.cordinates
    else if geoRel = "within" then checkWithin math metaData res.cordinates
    else if geoRel = "contains" then checkContains math metaData res.cordinates
    else .ok false
  else .ok false

def TwoNumbers (items : List Value) : Prop :=
  ∃ a b rest, items = .number a :: .number b :: rest

def Ring (coor : Value) : Prop :=
  ∃ items, coor = .array items ∧ ∀ val ∈ items, ∃ corner, val = .array corner ∧ TwoNumbers corner

def Rings (polygon : Value) : Prop :=
  polygon = .null ∨ ∃ rings, polygon = .array rings ∧ ∀ val ∈ rings, Ring val

def NoVertex (polygon : Value) : Prop :=
  polygon = .null ∨ ∃ rings, polygon = .array rings ∧
    (rings = [] ∨ rings.getLast? = some (.array []))

theorem asSlice_eq_ok {v : Value} {items : List Value} :
    asSlice v = .ok items ↔ v = .array items := by
  cases v <;> simp [asSlice]

theorem firstTwo_ends {items : List Value} : Ends (firstTwo items) ↔ TwoNumbers items := by
  unfold firstTwo TwoNumbers
  match items with
  | [] => simp [ends_bind, index]
  | [a] => simp [ends_bind, index]
  | a :: b :: rest =>
    have h0 : index (a :: b :: rest) 0 = .ok a := rfl
    have h1 : index (a :: b :: rest) 1 = .ok b := rfl
    rw [h0, h1, ok_bind, ok_bind]
    cases a <;> cases b <;> simp [asFloat, ends_bind]

theorem convertInStructure_ends {coor : Value} : Ends (convertInStructure coor) ↔ Ring coor := by
  unfold convertInStructure Ring
  rw [ends_bind]
  refine exists_congr (fun items => and_congr asSlice_eq_ok ?_)
  rw [foldlM_ends (g := fun val => asSlice val >>= firstTwo)]
  refine forall_congr' (fun val => forall_congr' (fun _ => ?_))
  rw [ends_bind]
  exact exists_congr (fun corner => and_congr asSlice_eq_ok firstTwo_ends)

theorem convertInStructure_eq_nil {coor : Value} (h : convertInStructure coor = .ok []) :
    coor = .array [] := by
  obtain ⟨items, hitems, hloop⟩ := bind_eq_ok.mp h
  have hlen : ([] : List Point).length = items.length :=
    foldlM_invariant (I := fun done acc => acc.length = done.length) hloop rfl (by
      intro done val rest acc next _ hacc hnext
      obtain ⟨geo, -, hgeo⟩ := bind_eq_ok.mp hnext
      rw [← Except.ok.inj hgeo]
      simp [hacc])
  rw [asSlice_eq_ok.mp hitems, List.length_eq_zero_iff.mp hlen.symm]

theorem convertRings_ends {polygon : Value} : Ends (convertRings polygon) ↔ Rings polygon := by
  unfold convertRings Rings
  split_ifs with hnull
  · simp [hnull]
  · rw [ends_bind]
    simp only [hnull, false_or]
    refine exists_congr (fun rings => and_congr asSlice_eq_ok ?_)
    have hloop : Ends (rings.foldlM (fun _ val => convertInStructure val >>= fun y => .ok y)
        ([] : List Point)) ↔ ∀ val ∈ rings, Ends (convertInStructure val) :=
      foldlM_ends (k := fun _ y => y)
    have hbody (val : Value) : (convertInStructure val >>= fun y => Except.ok y) =
        convertInStructure val := by
      cases convertInStructure val <;> rfl
    simp only [hbody] at hloop
    rw [hloop]
    exact forall_congr' (fun val => forall_congr' (fun _ => convertInStructure_ends))

-- only the last ring decides whether any vertex is left
theorem convertRings_eq_nil {polygon : Value} {vertices : List Point}
    (h : convertRings polygon = .ok vertices) : vertices = [] ↔ NoVertex polygon := by
  unfold convertRings at h
  unfold NoVertex
  split_ifs at h with hnull
  · simp [hnull, ← Except.ok.inj h]
  · obtain ⟨rings, hrings, hloop⟩ := bind_eq_ok.mp h
    have hlast : (rings = [] ∧ vertices = []) ∨
        ∃ val, rings.getLast? = some val ∧ convertInStructure val = .ok vertices :=
      foldlM_invariant (I := fun done acc => (done = [] ∧ acc = []) ∨
        ∃ val, done.getLast? = some val ∧ convertInStructure val = .ok acc) hloop
        (Or.inl ⟨rfl, rfl⟩)
        (fun done val rest acc next _ _ hnext => Or.inr ⟨val, by simp, hnext⟩)
    rw [asSlice_eq_ok.mp hrings]
    rcases hlast with ⟨rfl, rfl⟩ | ⟨val, hval, hconv⟩
    · simp
    · have hne : rings ≠ [] := by
        rintro rfl
        cases hval
      constructor
      · rintro rfl
        exact Or.inr ⟨rings, rfl, Or.inr (by rw [hval, convertInStructure_eq_nil hconv])⟩
      · rintro (hnil | ⟨rings', heq, hrings' | hlast'⟩)
        · cases hnil
        · exact absurd (Value.array.inj heq ▸ hrings') hne
        · rw [← Value.array.inj heq, hval] at hlast'
          rw [Option.some.inj hlast'] at hconv
          exact (Except.ok.inj hconv).symm

theorem commonConverter_ends {α : Type} {entityP queryP : Value}
    {f : List Point × List Point → Except Fault α} :
    Ends (commonConverter entityP queryP >>= f) ↔
      ∃ e q, convertRings entityP = .ok e ∧ convertRings queryP = .ok q ∧ Ends (f (e, q)) := by
  simp only [commonConverter, ends_bind, bind_eq_ok]
  constructor
  · rintro ⟨pair, ⟨e, he, q, hq, hpair⟩, hf⟩
    obtain rfl : (e, q) = pair := Except.ok.inj hpair
    exact ⟨e, q, he, hq, hf⟩
  · rintro ⟨e, q, he, hq, hf⟩
    exact ⟨(e, q), ⟨e, he, q, hq, rfl⟩, hf⟩

variable {math}

theorem raycast_ends {point : Point} {vertices : List Point} :
    Ends (raycast math point vertices) ↔ vertices ≠ [] := by
  unfold raycast
  cases vertices with
  | nil => simp
  | cons v vs => simp [List.getLast?_cons]

theorem commonConverter_ends_iff {entityP queryP : Value} {C : Prop}
    {f : List Point × List Point → Except Fault Bool}
    (h : ∀ e q, (e = [] ↔ NoVertex entityP) → (q = [] ↔ NoVertex queryP) →
      (Ends (f (e, q)) ↔ C)) :
    Ends (commonConverter entityP queryP >>= f) ↔ (Rings entityP ∧ Rings queryP) ∧ C := by
  rw [commonConverter_ends, ← convertRings_ends, ← convertRings_ends]
  constructor
  · rintro ⟨e, q, he, hq, hf⟩
    exact ⟨⟨⟨e, he⟩, ⟨q, hq⟩⟩, (h e q (convertRings_eq_nil he) (convertRings_eq_nil hq)).mp hf⟩
  · rintro ⟨⟨⟨e, he⟩, ⟨q, hq⟩⟩, hC⟩
    exact ⟨e, q, he, hq, (h e q (convertRings_eq_nil he) (convertRings_eq_nil hq)).mpr hC⟩

theorem checkEquals_ends {entityP queryP : Value} :
    Ends (checkEquals entityP queryP) ↔ (Rings entityP ∧ Rings queryP) ∧ True := by
  refine commonConverter_ends_iff (fun e q _ _ => iff_of_true ?_ trivial)
  dsimp only
  split_ifs <;> exact ends_ok _

theorem checkDisjoint_ends {entityP queryP : Value} :
    Ends (checkDisjoint math entityP queryP) ↔
      (Rings entityP ∧ Rings queryP) ∧ (NoVertex queryP ∨ ¬ NoVertex entityP) := by
  refine commonConverter_ends_iff (fun e q he hq => ?_)
  rw [← he, ← hq]
  exact allM_ends_of_const (fun val => ends_bind_ok.trans raycast_ends)

theorem checkWithin_ends {entityP queryP : Value} :
    Ends (checkWithin math entityP queryP) ↔
      (Rings entityP ∧ Rings queryP) ∧ (NoVertex queryP ∨ ¬ NoVertex entityP) := by
  refine commonConverter_ends_iff (fun e q he hq => ?_)
  rw [← he, ← hq]
  exact allM_ends_of_const (fun val => raycast_ends)

theorem checkContains_ends {entityP queryP : Value} :
    Ends (checkContains math entityP queryP) ↔
      (Rings entityP ∧ Rings queryP) ∧ (NoVertex entityP ∨ ¬ NoVertex queryP) := by
  refine commonConverter_ends_iff (fun e q he hq => ?_)
  rw [← he, ← hq]
  exact allM_ends_of_const (fun val => raycast_ends)

-- what each relation between two polygons asks of the stored and of the requested coordinates
def RelationFits (geoRel : String) (entityP queryP : Value) : Prop :=
  (geoRel ∈ ["equals", "disjoint", "within", "contains"] → Rings entityP ∧ Rings queryP) ∧
  (geoRel ∈ ["disjoint", "within"] → NoVertex queryP ∨ ¬ NoVertex entityP) ∧
  (geoRel = "contains" → NoVertex entityP ∨ ¬ NoVertex queryP)

theorem findDistForPolygon_ends {typ : String} {metaData : Value} {res : Restriction} :
    Ends (findDistForPolygon math typ metaData res) ↔
      toLower typ ≠ "point" ∧
        (toLower typ = "polygon" → RelationFits (removeSpaces res.georel) metaData res.cordinates) := by
  unfold findDistForPolygon RelationFits
  generalize removeSpaces res.georel = geoRel
  by_cases hpoint : toLower typ = "point"
  · simp [hpoint, asGeoPoint, ends_bind]
  by_cases hpolygon : toLower typ = "polygon"
  · rw [if_neg hpoint, if_pos hpolygon]
    by_cases heq : geoRel = "equals"
    · simp [heq, hpolygon, checkEquals_ends]
    by_cases hdis : geoRel = "disjoint"
    · simp [hdis, hpolygon, checkDisjoint_ends]
    by_cases hwithin : geoRel = "within"
    · simp [hwithin, hpolygon, checkWithin_ends]
    by_cases hcontains : geoRel = "contains"
    · simp [hcontains, hpolygon, checkContains_ends]
    · simp [*]
  · simp [hpoint, hpolygon]

-- a pair of coordinates is read as two numbers, a list of another length not at all
def EntityPair (metadatas : Value) : Prop :=
  ∀ items, metadatas = .array items → items.length = 2 → TwoNumbers items

theorem entityPoint_ends {metadatas : Value} :
    Ends (entityPoint metadatas) ↔ EntityPair metadatas := by
  unfold EntityPair entityPoint
  cases metadatas with
  | array items =>
    by_cases hlen : items.length = 2
    · simp [hlen, firstTwo_ends]
    · simp [hlen]
  | _ => simp

variable (math) in
theorem findDistForPoint_ends {typ : String} {metaData loc : Value} :
    Ends (findDistForPoint math typ metaData loc) ↔
      (toLower typ = "point" →
        EntityPair metaData ∧ ∃ locn, loc = .array locn ∧ TwoNumbers locn) := by
  unfold findDistForPoint distForPoint
  by_cases hpoint : toLower typ = "point"
  · simp only [hpoint, if_true, true_implies]
    rw [← entityPoint_ends, ends_bind]
    simp only [ends_bind, ends_ok, and_true, asSlice_eq_ok]
    simp only [← firstTwo_ends, Ends]
    exact exists_and_right
  · simp [hpoint]

end FogFlow.Discovery
