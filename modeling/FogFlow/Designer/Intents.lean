import FogFlow.Datamodel
import FogFlow.Designer.PublishOrder
import FogFlow.Library.Named

namespace FogFlow.Designer.Intents

open Datamodel Execution

-- an intent object is told apart from its copies by where it came from
inductive Origin where
  | posted (n : Nat)
  | loadedIntent (start : Nat)
  | loadedFogfunction (start : Nat) (name : String)
deriving DecidableEq, Repr

structure IntentObject where
  origin : Origin
  intent : ServiceIntent
deriving DecidableEq, Repr

structure FogFunction where
  name : String
  enabled : Bool
  intent : IntentObject
deriving DecidableEq, Repr

-- what db.json holds: the fog functions with their status and the intents as they were written
structure Database where
  serviceintents : GoMap ServiceIntent
  fogfunctions : GoMap (String × Bool × ServiceIntent)

-- the requests that await the write of a posted intent, the calls of Publish that the running
-- handler has still to make, and the messages by the number of their call; the action of an object
-- changes while messages refer to it
structure Server where
  made : Nat
  serviceintents : GoMap IntentObject
  fogfunctions : GoMap FogFunction
  action : IntentObject → String
  writing : List IntentObject
  publishing : List (IntentObject × String)
  sendLoadedIntents : Bool
  client : Rabbitmq.Client
  messages : List IntentObject
  sent : List ServiceIntent

def Server.init : Server :=
  ⟨0, ∅, ∅, fun o => o.intent.action, [], [], false, .init, [], []⟩

def Server.text (s : Server) (o : IntentObject) : ServiceIntent :=
  { o.intent with action := s.action o }

-- a message becomes text when it is handed over to the channel
def Server.moved (s : Server) (client : Rabbitmq.Client) : Server :=
  { s with
    client := client
    sent := s.sent ++ (client.handedOver.drop s.client.handedOver.length).filterMap
      (fun entry => (s.messages[entry.2]?).map s.text) }

inductive Label where
  | postIntent (serviceintent : ServiceIntent)
  | written (i : Nat)
  | deleteIntent (id : String)
  | postFogfunctions (fogfunctions : List (String × ServiceIntent))
  | enable (name : String)
  | disable (name : String)
  | deleteFogfunction (name : String)
  | publish (outcome : Rabbitmq.Outcome)
  | connection (event : Rabbitmq.Event) (rank : String → Nat)
  | restart (db : Database)

def publishMetadata (s : Server) (o : IntentObject) (action : String)
    (rest : List (IntentObject × String)) (outcome : Rabbitmq.Outcome) : Server :=
  Server.moved { s with
    action := Function.update s.action o action
    publishing := rest
    messages := s.messages ++ [o] } (Rabbitmq.publish s.client outcome)

def postIntent (s : Server) (serviceintent : ServiceIntent) : Server :=
  let o : IntentObject := ⟨.posted s.made, serviceintent⟩
  { s with
    made := s.made + 1
    serviceintents := s.serviceintents.set serviceintent.id o
    writing := s.writing ++ [o] }

def deleteIntent (s : Server) (id : String) : Server :=
  match s.serviceintents.get id with
  | none => s
  | some o => { s with
      serviceintents := s.serviceintents.delete id
      publishing := [(o, "DELETE")] }

def postFogfunction (s : Server) (fogfunction : String × ServiceIntent) : Server :=
  let o : IntentObject := ⟨.posted s.made, fogfunction.2⟩
  { s with
    made := s.made + 1
    fogfunctions := s.fogfunctions.set fogfunction.1 ⟨fogfunction.1, true, o⟩
    publishing := s.publishing ++ [(o, "ADD")] }

-- a name that is not there makes the handler throw, which ends the process
def setStatus (s : Server) (name : String) (enabled : Bool) (action : String) : Option Server :=
  (s.fogfunctions.get name).map (fun fogfunction => { s with
    fogfunctions := s.fogfunctions.set name { fogfunction with enabled := enabled }
    publishing := [(fogfunction.intent, action)] })

def deleteFogfunction (s : Server) (name : String) : Server :=
  match s.fogfunctions.get name with
  | none => s
  | some fogfunction => { s with
      fogfunctions := s.fogfunctions.delete name
      publishing := [(fogfunction.intent, "DELETE")] }

def loadedIntents (s : Server) (rank : String → Nat) : List IntentObject :=
  (s.serviceintents.range rank).map (fun e => e.2) ++
    ((s.fogfunctions.range rank).filter (fun e => e.2.enabled)).map (fun e => e.2.intent)

-- cb_after_connected is called once in the life of the process
def issueLoadedIntents (s : Server) (rank : String → Nat) : Server :=
  if s.sendLoadedIntents then s
  else { s with
    sendLoadedIntents := true
    publishing := (loadedIntents s rank).map (fun o => (o, "ADD")) }

def becomesReady (client : Rabbitmq.Client) : Rabbitmq.Event → Bool
  | .proceed i _ => client.attempts[i]? == some .settingUp
  | _ => false

def isPublish : Rabbitmq.Event → Bool
  | .publish _ => true
  | _ => false

def connection (s : Server) (event : Rabbitmq.Event) (rank : String → Nat) : Option Server :=
  if isPublish event then none
  else (Rabbitmq.step s.client event).map (fun client =>
    if becomesReady s.client event then issueLoadedIntents (s.moved client) rank
    else s.moved client)

def Database.keyed (db : Database) : Bool :=
  db.serviceintents.entries.all (fun e => e.2.id == e.1)

-- the process begins anew with what the file holds
def restart (s : Server) (db : Database) : Server :=
  { Server.init with
    made := s.made + 1
    serviceintents := db.serviceintents.map (fun intent => ⟨.loadedIntent s.made, intent⟩)
    fogfunctions := db.fogfunctions.map (fun fogfunction =>
      ⟨fogfunction.1, fogfunction.2.1, .loadedFogfunction s.made fogfunction.1,
        fogfunction.2.2⟩)
    sent := s.sent }

-- a handler runs to its next await before another one is called
def step (s : Server) (label : Label) : Option Server :=
  match label, s.publishing with
  | .publish outcome, (o, action) :: rest => some (publishMetadata s o action rest outcome)
  | .postIntent serviceintent, [] => some (postIntent s serviceintent)
  | .written i, [] => (s.writing[i]?).map (fun o => { s with
      writing := s.writing.eraseIdx i
      publishing := [(o, "ADD")] })
  | .deleteIntent id, [] => some (deleteIntent s id)
  | .postFogfunctions fogfunctions, [] => some (fogfunctions.foldl postFogfunction s)
  | .enable name, [] => setStatus s name true "ADD"
  | .disable name, [] => setStatus s name false "DELETE"
  | .deleteFogfunction name, [] => some (deleteFogfunction s name)
  | .connection event rank, [] => connection s event rank
  | .restart db, _ => if db.keyed then some (restart s db) else none
  | _, _ => none

end FogFlow.Designer.Intents
