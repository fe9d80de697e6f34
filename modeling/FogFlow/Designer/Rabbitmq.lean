import FogFlow.Library.Execution

namespace FogFlow.Designer.Rabbitmq

-- connect between two of its awaits; a channel has the number of its connection
inductive Attempt where
  | connecting
  | creatingChannel (conn : Nat)
  | settingUp
  | flushing
deriving DecidableEq, Repr

-- an awaited publishNow: a message handed over to a channel, or one that the call threw back
inductive Awaited where
  | direct (message channel : Nat)
  | directFailed (message : Nat)
  | flush (message channel : Nat)
  | flushFailed (message : Nat)
deriving DecidableEq, Repr

-- a message is named by the number of its Publish call
structure Client where
  isReady : Bool
  isConnecting : Bool
  amqpConn : Option Nat
  amqpChannel : Option Nat
  reconnectTimer : Bool
  pendingMessages : List Nat
  connections : Nat
  attempts : List Attempt
  awaited : List Awaited
  calls : Nat
  handedOver : List (Nat × Nat)
  settled : List Nat
deriving DecidableEq, Repr

def connect (s : Client) : Client :=
  if s.isConnecting then s
  else { s with isConnecting := true, attempts := s.attempts ++ [.connecting] }

-- Init
def Client.init : Client :=
  connect ⟨false, false, none, none, false, [], 0, [], [], 0, [], []⟩

def scheduleReconnect (s : Client) : Client := { s with reconnectTimer := true }

def onDisconnected (s : Client) : Client :=
  if !s.isReady && s.amqpConn.isNone && s.amqpChannel.isNone then scheduleReconnect s
  else scheduleReconnect { s with
    isReady := false, isConnecting := false, amqpChannel := none, amqpConn := none }

-- what channel.publish does when it is called: whatever it returns, or an exception
inductive Outcome where
  | accepted
  | thrown
deriving DecidableEq, Repr

-- a promise that is settled stays as it is
def settle (s : Client) (message : Nat) : Client :=
  if message ∈ s.settled then s else { s with settled := s.settled ++ [message] }

-- the loop up to its next await
def flushPendingMessages (s : Client) (outcome : Outcome) : Client :=
  match s.pendingMessages, s.isReady, s.amqpChannel with
  | message :: _, true, some channel =>
      match outcome with
      | .accepted => { s with
          handedOver := s.handedOver ++ [(channel, message)]
          awaited := s.awaited ++ [.flush message channel] }
      | .thrown => { s with awaited := s.awaited ++ [.flushFailed message] }
  | _, _, _ => s

def publish (s : Client) (outcome : Outcome) : Client :=
  let message := s.calls
  match s.isReady, s.amqpChannel with
  | true, some channel =>
      match outcome with
      | .accepted => { s with
          calls := s.calls + 1
          handedOver := s.handedOver ++ [(channel, message)]
          awaited := s.awaited ++ [.direct message channel] }
      | .thrown => { s with
          calls := s.calls + 1
          awaited := s.awaited ++ [.directFailed message] }
  | _, _ =>
      let queued := { s with
        calls := s.calls + 1
        pendingMessages := s.pendingMessages ++ [message] }
      if !s.isConnecting && !s.reconnectTimer then connect queued else queued

def shift (s : Client) : Client := { s with pendingMessages := s.pendingMessages.tail }

-- the continuation after an await on publishNow
def resume (s : Client) (i : Nat) (outcome : Outcome) : Awaited → Client
  | .direct message _ => settle { s with awaited := s.awaited.eraseIdx i } message
  | .directFailed message =>
      onDisconnected { s with
        awaited := s.awaited.eraseIdx i
        pendingMessages := s.pendingMessages ++ [message] }
  | .flush message _ =>
      flushPendingMessages (settle (shift { s with awaited := s.awaited.eraseIdx i }) message)
        outcome
  | .flushFailed message =>
      if !s.isReady || s.amqpChannel.isNone then { s with awaited := s.awaited.eraseIdx i }
      else
        flushPendingMessages (settle (shift { s with awaited := s.awaited.eraseIdx i }) message)
          outcome

def proceed (s : Client) (i : Nat) (outcome : Outcome) : Attempt → Client
  | .connecting => { s with
      amqpConn := some s.connections
      connections := s.connections + 1
      attempts := s.attempts.set i (.creatingChannel s.connections) }
  | .creatingChannel conn => { s with
      amqpChannel := some conn
      attempts := s.attempts.set i .settingUp }
  | .settingUp => { s with
      isReady := true
      isConnecting := false
      attempts := s.attempts.set i .flushing }
  | .flushing => flushPendingMessages { s with attempts := s.attempts.eraseIdx i } outcome

inductive Event where
  | publish (outcome : Outcome)
  | proceed (i : Nat) (outcome : Outcome)
  | fail (i : Nat)
  | connectionClosed
  | channelClosed
  | timer
  | resume (i : Nat) (outcome : Outcome)
deriving DecidableEq, Repr

-- the calls that cb_after_connected makes are publish events before the flush begins
def step (s : Client) : Event → Option Client
  | .publish outcome => some (publish s outcome)
  | .proceed i outcome => (s.attempts[i]?).map (proceed s i outcome)
  | .fail i => (s.attempts[i]?).map (fun _ =>
      scheduleReconnect { s with
        isConnecting := false
        amqpChannel := none
        amqpConn := none
        attempts := s.attempts.eraseIdx i })
  | .connectionClosed => some (onDisconnected s)
  | .channelClosed => some (if s.isReady then onDisconnected s else s)
  | .timer =>
      if s.reconnectTimer then some (connect { s with reconnectTimer := false }) else none
  | .resume i outcome => (s.awaited[i]?).map (resume s i outcome)

end FogFlow.Designer.Rabbitmq
