import Mathlib.Data.Rat.Defs

namespace FogFlow.Ngsi

inductive Fault where
  | nilDereference
  | typeAssertion
  | uncomparable
  | indexOutOfRange
  | sliceBounds
deriving DecidableEq, Repr

def deref {α : Type} : Option α → Except Fault α
  | some a => .ok a
  | none => .error .nilDereference

def index {α : Type} (xs : List α) (i : Nat) : Except Fault α :=
  match xs[i]? with
  | some a => .ok a
  | none => .error .indexOutOfRange

-- a float64 coordinate is a dyadic rational
structure Point where
  latitude : ℚ
  longitude : ℚ
deriving DecidableEq, Repr

def Point.isEmpty (p : Point) : Bool := p.latitude == 0 && p.longitude == 0

def Point.isEqual (p p2 : Point) : Bool :=
  p.latitude == p2.latitude && p.longitude == p2.longitude

structure Circle where
  latitude : ℚ
  longitude : ℚ
  radius : ℚ
deriving DecidableEq, Repr

structure Segment where
  nwCorner : String
  seCorner : String
deriving DecidableEq, Repr

structure NearBy where
  latitude : ℚ
  longitude : ℚ
  limit : Int
deriving DecidableEq, Repr

structure Polygon where
  vertices : List Point
deriving DecidableEq, Repr

-- the dynamic values that the decoders store behind Go's interface type
inductive Value where
  | null
  | bool (b : Bool)
  | number (q : ℚ)
  | string (s : String)
  | array (items : List Value)
  | object (fields : List (String × Value))
  | point (p : Point)
  | circle (c : Circle)
  | polygon (p : Polygon)
  | segment (s : Segment)
  | nearBy (n : NearBy)
  | raw (text : String)
deriving Repr

mutual

def Value.decEq : (a b : Value) → Decidable (a = b)
  | .null, b => by cases b <;> first | exact isTrue rfl | exact isFalse (by simp)
  | .bool x, b => by
      cases b with
      | bool y => exact decidable_of_iff (x = y) (by simp)
      | _ => exact isFalse (by simp)
  | .number x, b => by
      cases b with
      | number y => exact decidable_of_iff (x = y) (by simp)
      | _ => exact isFalse (by simp)
  | .string x, b => by
      cases b with
      | string y => exact decidable_of_iff (x = y) (by simp)
      | _ => exact isFalse (by simp)
  | .array x, b => by
      cases b with
      | array y => exact @decidable_of_iff _ (x = y) (by simp) (Value.decEqList x y)
      | _ => exact isFalse (by simp)
  | .object x, b => by
      cases b with
      | object y => exact @decidable_of_iff _ (x = y) (by simp) (Value.decEqFields x y)
      | _ => exact isFalse (by simp)
  | .point x, b => by
      cases b with
      | point y => exact decidable_of_iff (x = y) (by simp)
      | _ => exact isFalse (by simp)
  | .circle x, b => by
      cases b with
      | circle y => exact decidable_of_iff (x = y) (by simp)
      | _ => exact isFalse (by simp)
  | .polygon x, b => by
      cases b with
      | polygon y => exact decidable_of_iff (x = y) (by simp)
      | _ => exact isFalse (by simp)
  | .segment x, b => by
      cases b with
      | segment y => exact decidable_of_iff (x = y) (by simp)
      | _ => exact isFalse (by simp)
  | .nearBy x, b => by
      cases b with
      | nearBy y => exact decidable_of_iff (x = y) (by simp)
      | _ => exact isFalse (by simp)
  | .raw x, b => by
      cases b with
      | raw y => exact decidable_of_iff (x = y) (by simp)
      | _ => exact isFalse (by simp)

def Value.decEqList : (a b : List Value) → Decidable (a = b)
  | [], b => by cases b <;> first | exact isTrue rfl | exact isFalse (by simp)
  | x :: xs, b => by
      cases b with
      | nil => exact isFalse (by simp)
      | cons y ys =>
        exact @decidable_of_iff _ (x = y ∧ xs = ys) (by simp)
          (@instDecidableAnd _ _ (Value.decEq x y) (Value.decEqList xs ys))

def Value.decEqFields : (a b : List (String × Value)) → Decidable (a = b)
  | [], b => by cases b <;> first | exact isTrue rfl | exact isFalse (by simp)
  | (k, x) :: xs, b => by
      cases b with
      | nil => exact isFalse (by simp)
      | cons y ys =>
        exact @decidable_of_iff _ ((k = y.1 ∧ x = y.2) ∧ xs = ys) (by simp [Prod.ext_iff])
          (@instDecidableAnd _ _ (@instDecidableAnd _ _ inferInstance (Value.decEq x y.2))
            (Value.decEqFields xs ys))

end

instance : DecidableEq Value := Value.decEq

-- Go's == on two interface values panics when both hold the same uncomparable dynamic type
def Value.goEq : Value → Value → Except Fault Bool
  | .array _, .array _ => .error .uncomparable
  | .object _, .object _ => .error .uncomparable
  | .polygon _, .polygon _ => .error .uncomparable
  | .raw _, .raw _ => .error .uncomparable
  | a, b => .ok (decide (a = b))

def toLowerChar (c : Char) : Char :=
  if c = Char.ofNat 0x212A then 'k'
  else if c = Char.ofNat 0x130 then 'i'
  else c.toLower

-- strings.ToLower as far as a comparison with an ASCII text can see it
def toLower (s : String) : String := String.ofList (s.toList.map toLowerChar)

structure ContextMetadata where
  name : String
  type : String
  value : Value
  cordinates : Value
deriving DecidableEq, Repr

-- the zero value, which reading a missing key of a metadata map yields
def ContextMetadata.zero : ContextMetadata := ⟨"", "", .null, .null⟩

-- struct comparison goes field by field and stops at the first difference
def ContextMetadata.goEq (a b : ContextMetadata) : Except Fault Bool :=
  if a.name ≠ b.name then .ok false
  else if a.type ≠ b.type then .ok false
  else do
    let sameValue ← a.value.goEq b.value
    if sameValue then a.cordinates.goEq b.cordinates else .ok false

example : (Value.array [.string "a", .object [("k", .null)]]) ≠ .array [.string "b"] := by decide

end FogFlow.Ngsi
