import FogFlow.Datamodel
import FogFlow.Library.Loop

namespace FogFlow.Master

open Ngsi Datamodel

-- what GroupInfo and UniqueKeys hold behind Go's interface type
inductive GroupValue where
  | text (s : String)
  | metadata (m : ContextMetadata)
deriving DecidableEq, Repr

def GroupValue.goEq : GroupValue → GroupValue → Except Fault Bool
  | .text a, .text b => .ok (decide (a = b))
  | .metadata a, .metadata b => a.goEq b
  | _, _ => .ok false

abbrev GroupInfo := GoMap GroupValue

structure InputSubscription where
  inputSelector : InputStreamConfig
  subID : String
  receivedEntityRegistrations : GoMap EntityRegistration

def hash (s : String) : UInt32 :=
  s.toUTF8.data.toList.foldl (fun h b => (h ^^^ b.toUInt32) * 16777619) 2166136261

def sprintf08d (n : UInt32) : String :=
  let digits := Nat.repr n.toNat
  String.ofList (List.replicate (8 - digits.length) '0') ++ digits

abbrev KVPair := GoMap.Entry GroupValue

-- one pass from the end of the list, swapping neighbours that are out of order
def sortPass : List KVPair → List KVPair
  | [] => []
  | pair :: rest =>
      match sortPass rest with
      | [] => [pair]
      | next :: others =>
          if next.1 < pair.1 then next :: pair :: others else pair :: next :: others

def sortedPairs (pairs : List KVPair) : List KVPair :=
  pairs.foldl (fun sortedpairs kvpair => sortPass (sortedpairs ++ [kvpair])) []

variable (marshal : GroupValue → String)

def getHash (rank : String → Nat) (group : GroupInfo) : String :=
  let text := (sortedPairs (group.range rank)).foldl (fun text pair => text ++ marshal pair.2) ""
  sprintf08d (hash text)

def groupedKey (selector : InputStreamConfig) : String :=
  selector.entityType ++ "-" ++ selector.groupBy

def groupedValue (groupKey : String) (entity : EntityRegistration) : GroupValue :=
  if groupKey = "EntityID" then .text entity.id
  else if groupKey = "EntityType" then .text entity.type
  else .metadata ((entity.metadataList.get groupKey).getD .zero)

def valueOf (sub : InputSubscription) (entityID : String) : Except Fault GroupValue :=
  if sub.inputSelector.groupBy = "ALL" then .ok (.text "ALL")
  else do
    let entity ← deref (sub.receivedEntityRegistrations.get entityID)
    .ok (groupedValue sub.inputSelector.groupBy entity)

def inList (value : GroupValue) : List GroupValue → Except Fault Bool
  | [] => .ok false
  | item :: items => do
      let same ← item.goEq value
      if same then .ok true else inList value items

def updateGroupedKeyValueTable (uniqueKeys : GoMap (List GroupValue)) (sub : InputSubscription)
    (entityID : String) : Except Fault (GoMap (List GroupValue)) := do
  let key := groupedKey sub.inputSelector
  let value ← valueOf sub entityID
  match uniqueKeys.get key with
  | some items =>
      if sub.inputSelector.groupBy = "ALL" then .ok uniqueKeys
      else do
        let found ← inList value items
        .ok (if found then uniqueKeys else uniqueKeys.set key (items ++ [value]))
  | none => .ok (uniqueKeys.set key [value])

-- multiplies the groups with the values of one more key
def multiply (groups : List GroupInfo) (uniqueKey : String) (values : List GroupValue) :
    List GroupInfo :=
  values.flatMap (fun uniqueValue => groups.map (fun info => info.set uniqueKey uniqueValue))

def getRelevantGroups (keyRank : String → Nat) (uniqueKeys : GoMap (List GroupValue))
    (sub : InputSubscription) (entityID : String) : Except Fault (List GroupInfo) := do
  let key := groupedKey sub.inputSelector
  let value ← valueOf sub entityID
  .ok ((uniqueKeys.range keyRank).foldl (fun groups e =>
    if e.1 = key then groups else multiply groups e.1 e.2) [(∅ : GroupInfo).set key value])

def isMatched (registeredEntity : EntityRegistration) (restrictions : GoMap GroupValue) :
    Except Fault Bool :=
  restrictions.entries.foldlM (fun matched e =>
    if e.1 = "ALL" then .ok matched
    else do
      let same ← (groupedValue e.1 registeredEntity).goEq e.2
      .ok (matched && same)) true

def restrictionsOf (selector : InputStreamConfig) (group : GroupInfo) : GoMap GroupValue :=
  match group.get (groupedKey selector) with
  | some v => (∅ : GoMap GroupValue).set selector.groupBy v
  | none => ∅

end FogFlow.Master
