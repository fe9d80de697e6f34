import FogFlow.Library.Execution

namespace FogFlow.ConsumerLoop

open Execution

abbrev Bytes := List UInt8

structure RecvMessage where
  type : String
  routingKey : String
  sentFrom : String
  payLoad : Bytes

-- how a call of Process ends
inductive Processed (σ : Type*) where
  | returned (component : σ) (err : Option String)
  | panicked

abbrev TaskProcessor (σ : Type*) := σ → RecvMessage → Processed σ

def workerTypes : List String :=
  ["ADD_TASK", "PATCH_TASK", "REMOVE_TASK", "ADD_INPUT", "REMOVE_INPUT", "PREFETCH_PYTHON_PACKAGE",
    "PREFETCH_IMAGE"]

def masterTypes : List String :=
  ["WORKER_JOIN", "WORKER_LEAVE", "WORKER_HEARTBEAT", "TASK_UPDATE", "TASK_PATCH", "ServiceIntent"]

section Components

variable {σ : Type*} (unmarshal : String → Bytes → Option String)
  (handle : σ → RecvMessage → Option σ)

-- unmarshal is the error of decoding the payload as the type of message says; handle is the part
-- of the component that gets the decoded payload, none where it dereferences nil
def processTyped (types : List String) (reports : Bool) : TaskProcessor σ := fun component msg =>
  if types.contains msg.type then
    match unmarshal msg.type msg.payLoad with
    | some err => .returned component (if reports then some err else none)
    | none =>
      match handle component msg with
      | some component => .returned component none
      | none => .panicked
  else .returned component none

def workerProcess : TaskProcessor σ := processTyped unmarshal handle workerTypes true

-- the err of each case is a new variable, and nil is returned after the switch
def masterProcess : TaskProcessor σ := processTyped unmarshal handle masterTypes false

end Components

structure Config (σ : Type*) where
  infiniteReconnectionTries : Bool
  unmarshal : Bytes → Except String RecvMessage
  process : TaskProcessor σ

-- the acknowledgements of a message are left to the bus
def consumeOne {σ : Type*} (cfg : Config σ) (component : σ) (body : Bytes) : Processed σ :=
  if body.isEmpty then .returned component (some "Received an empty message.")
  else
    match cfg.unmarshal body with
    | .error err => .returned component (some err)
    | .ok msg => cfg.process component msg

-- a goroutine of consumeOne; sending waits until its error is taken from errorsChan
inductive Stage where
  | received (body : Bytes)
  | sending (err : String)
  | ended
deriving DecidableEq, Repr

structure Handler where
  errorsChan : Nat
  stage : Stage
deriving DecidableEq, Repr

-- the channels stopChan and errorsChan of a call have the number of the call
structure Communicator where
  retry : Bool
  consuming : Bool
  stopChan : Option Nat
deriving DecidableEq, Repr

def newCommunicator : Communicator := ⟨true, false, none⟩

-- where the goroutine of the consumer loop is
inductive Phase where
  | connecting
  | consuming
  | returning
  | sleeping
  | left
deriving DecidableEq, Repr

-- stopCalled and failedInARow are ghosts; stops are the calls of StopConsuming that wait to send
structure System (σ : Type*) where
  phase : Phase
  numConnectionFailure : Nat
  communicator : Communicator
  calls : Nat
  handlers : List Handler
  stops : List Nat
  component : σ
  panicked : Bool
  stopCalled : Bool
  failedInARow : Nat

def System.initial {σ : Type*} (component : σ) : System σ :=
  ⟨.connecting, 0, newCommunicator, 0, [], [], component, false, false, 0⟩

-- openFailed is an error of openSubscriber, setupFailed one of Qos or Consume after it
inductive Label where
  | openFailed
  | setupFailed
  | consume
  | deliver (body : Bytes)
  | handle (k : Nat)
  | receiveError (k : Nat)
  | receiveStop
  | doReturn
  | next
  | stopConsuming
deriving DecidableEq, Repr

section Step

variable {σ : Type*} (cfg : Config σ)

def System.setHandler (s : System σ) (k : Nat) (h : Handler) (stage : Stage) : System σ :=
  { s with handlers := s.handlers.set k { h with stage } }

def handleStep (s : System σ) (k : Nat) (h : Handler) : Option (System σ) :=
  match h.stage with
  | .received body =>
    match consumeOne cfg s.component body with
    | .returned component none => some { s.setHandler k h .ended with component }
    | .returned component (some err) => some { s.setHandler k h (.sending err) with component }
    | .panicked => some { s with panicked := true }
  | _ => none

-- the sender and the select of consume meet, and consume returns
def receiveErrorStep (s : System σ) (k : Nat) (h : Handler) : Option (System σ) :=
  match h.stage with
  | .sending _ =>
    if s.phase = .consuming ∧ h.errorsChan = s.calls then
      some { s.setHandler k h .ended with phase := .returning }
    else none
  | _ => none

-- the retry loop after its sleep
def afterFailure (s : System σ) : System σ :=
  let numConnectionFailure := s.numConnectionFailure + 1
  { s with
    numConnectionFailure
    communicator := if numConnectionFailure % 5 = 0 then newCommunicator else s.communicator
    phase := if !cfg.infiniteReconnectionTries && 10 < numConnectionFailure then .left
      else .connecting }

def stopConsuming (s : System σ) : System σ :=
  { s with
    communicator := { s.communicator with retry := false }
    stops := if s.communicator.consuming then s.stops ++ s.communicator.stopChan.toList
      else s.stops
    stopCalled := true }

-- a closed channel of deliveries goes on giving empty ones
def act (s : System σ) : Label → Option (System σ)
  | .openFailed =>
    if s.phase = .connecting then
      some { s with
        phase := .returning
        communicator := { s.communicator with consuming := false }
        failedInARow := s.failedInARow + 1 }
    else none
  | .setupFailed =>
    if s.phase = .connecting then
      some { s with
        phase := .returning
        communicator := { s.communicator with stopChan := some (s.calls + 1) }
        calls := s.calls + 1
        failedInARow := s.failedInARow + 1 }
    else none
  | .consume =>
    if s.phase = .connecting then
      some { s with
        phase := .consuming
        communicator := { s.communicator with consuming := true, stopChan := some (s.calls + 1) }
        calls := s.calls + 1
        failedInARow := 0 }
    else none
  | .deliver body =>
    if s.phase = .consuming then
      some { s with handlers := s.handlers ++ [⟨s.calls, .received body⟩] }
    else none
  | .handle k => (s.handlers[k]?).bind (handleStep cfg s k)
  | .receiveError k => (s.handlers[k]?).bind (receiveErrorStep s k)
  | .receiveStop => s.communicator.stopChan.bind (fun stopChan =>
    if s.phase = .consuming ∧ stopChan ∈ s.stops then
      some { s with phase := .returning, stops := s.stops.erase stopChan }
    else none)
  | .doReturn =>
    if s.phase = .returning then
      some { s with phase := if s.communicator.retry then .sleeping else .left }
    else none
  | .next => if s.phase = .sleeping then some (afterFailure cfg s) else none
  | .stopConsuming => some (stopConsuming s)

-- a panic in a goroutine ends the process
def step (s : System σ) (label : Label) : Option (System σ) :=
  if s.panicked then none else act cfg s label

end Step

-- the loop ends for these reasons only, the process does not end, and an error waits only where
-- the consume call that takes it is running
structure Steady {σ : Type*} (s : System σ) : Prop where
  leaves : s.phase = .left → s.stopCalled = true ∨ 10 < s.failedInARow
  running : s.panicked = false
  heard : ∀ h ∈ s.handlers, ∀ err, h.stage = .sending err →
    s.phase = .consuming ∧ h.errorsChan = s.calls

section Messages

variable {σ : Type*} (cfg : Config σ)

def Bad (component : σ) (body : Bytes) : Prop :=
  body = [] ∨ (∃ err, cfg.unmarshal body = .error err) ∨
    ∃ msg after err, cfg.unmarshal body = .ok msg ∧
      cfg.process component msg = .returned after (some err)

def Panics (component : σ) (body : Bytes) : Prop :=
  body ≠ [] ∧ ∃ msg, cfg.unmarshal body = .ok msg ∧ cfg.process component msg = .panicked

-- a bad message is found while the call that delivered it goes on, no second one waits when a
-- call returns, and the loop counts its eleventh return only after eleven failed connections
def Tolerated (s : System σ) : Label → Prop
  | .handle k => ∀ h body, s.handlers[k]? = some h → h.stage = .received body →
      ¬ Panics cfg s.component body ∧
        (Bad cfg s.component body → s.phase = .consuming ∧ h.errorsChan = s.calls)
  | .receiveError k => ∀ j h err, s.handlers[j]? = some h → h.stage = .sending err → j = k
  | .receiveStop => ∀ h ∈ s.handlers, ∀ err, h.stage ≠ .sending err
  | .next => cfg.infiniteReconnectionTries = true ∨ s.numConnectionFailure < 10 ∨
      s.stopCalled = true ∨ s.numConnectionFailure < s.failedInARow
  | _ => True

variable {cfg} {component : σ} {body : Bytes}

theorem consumeOne_of_ok {msg : RecvMessage} (hbody : body ≠ [])
    (hmsg : cfg.unmarshal body = .ok msg) :
    consumeOne cfg component body = cfg.process component msg := by
  cases body with
  | nil => exact absurd rfl hbody
  | cons b bs => simp only [consumeOne, List.isEmpty_cons, hmsg, Bool.false_eq_true, if_false]

theorem processTyped_reports_iff {unmarshal : String → Bytes → Option String}
    {handle : σ → RecvMessage → Option σ} {types : List String} {reports : Bool}
    {msg : RecvMessage} :
    (∃ after err, processTyped unmarshal handle types reports component msg =
        .returned after (some err)) ↔
      reports = true ∧ msg.type ∈ types ∧ unmarshal msg.type msg.payLoad ≠ none := by
  unfold processTyped
  by_cases htype : msg.type ∈ types
  · cases unmarshal msg.type msg.payLoad with
    | some err => cases reports <;> simp [htype]
    | none => cases handle component msg <;> simp [htype]
  · simp [htype]

-- a payload that does not decode is bad for a worker and not for a master
theorem bad_of_master {unmarshal : String → Bytes → Option String}
    {handle : σ → RecvMessage → Option σ} (hmaster : cfg.process = masterProcess unmarshal handle) :
    Bad cfg component body ↔ body = [] ∨ ∃ err, cfg.unmarshal body = .error err := by
  have hnever (msg : RecvMessage) (after : σ) (err : String) :
      cfg.process component msg ≠ .returned after (some err) := by
    intro hreports
    rw [hmaster] at hreports
    cases (processTyped_reports_iff.mp ⟨after, err, hreports⟩).1
  simp [Bad, hnever]

theorem bad_of_worker {unmarshal : String → Bytes → Option String}
    {handle : σ → RecvMessage → Option σ} (hworker : cfg.process = workerProcess unmarshal handle)
    {msg : RecvMessage} (hmsg : cfg.unmarshal body = .ok msg) :
    Bad cfg component body ↔ body = [] ∨
      (msg.type ∈ workerTypes ∧ unmarshal msg.type msg.payLoad ≠ none) := by
  have hreports : (∃ after err, cfg.process component msg = .returned after (some err)) ↔
      msg.type ∈ workerTypes ∧ unmarshal msg.type msg.payLoad ≠ none := by
    rw [hworker, workerProcess, processTyped_reports_iff]
    exact and_iff_right rfl
  rw [← hreports]
  simp [Bad, hmsg]

theorem bad_iff : Bad cfg component body ↔
    ∃ after err, consumeOne cfg component body = .returned after (some err) := by
  cases body with
  | nil => exact iff_of_true (Or.inl rfl) ⟨_, _, rfl⟩
  | cons b bs =>
    cases hmsg : cfg.unmarshal (b :: bs) with
    | error err =>
      refine iff_of_true (Or.inr (Or.inl ⟨err, hmsg⟩)) ⟨component, err, ?_⟩
      simp only [consumeOne, List.isEmpty_cons, hmsg, Bool.false_eq_true, if_false]
    | ok msg =>
      rw [consumeOne_of_ok (List.cons_ne_nil b bs) hmsg]
      simp [Bad, hmsg]

theorem panics_iff : Panics cfg component body ↔ consumeOne cfg component body = .panicked := by
  cases body with
  | nil => exact iff_of_false (fun h => h.1 rfl) nofun
  | cons b bs =>
    cases hmsg : cfg.unmarshal (b :: bs) with
    | error err => simp [Panics, consumeOne, hmsg]
    | ok msg =>
      rw [consumeOne_of_ok (List.cons_ne_nil b bs) hmsg]
      simp [Panics, hmsg]

end Messages

section Runs

variable {σ : Type*} {cfg : Config σ} {s t : System σ}

-- what holds in every run beside it: a call gives up only for a stop, and eleven returns are the
-- end
structure Counted (cfg : Config σ) (s : System σ) : Prop where
  retries : s.communicator.retry = false → s.stopCalled = true
  counted : cfg.infiniteReconnectionTries = false → s.phase ≠ .left →
    s.numConnectionFailure ≤ 10

theorem guarded_eq_some {p : Prop} [Decidable p] :
    (if p then some s else none) = some t ↔ p ∧ s = t := by
  rw [Option.ite_none_right_eq_some, Option.some_inj]

theorem step_eq_some {i : Label} :
    step cfg s i = some t ↔ s.panicked = false ∧ act cfg s i = some t := by
  unfold step
  cases s.panicked <;> simp

-- only a running consume call leaves an error waiting
theorem Steady.quiet (h : Steady s) (hphase : s.phase ≠ .consuming) :
    ∀ handler ∈ s.handlers, ∀ err, handler.stage ≠ .sending err :=
  fun handler hmem err herr => hphase (h.heard handler hmem err herr).1

theorem counted_initial (component : σ) : Counted cfg (.initial component) :=
  ⟨nofun, fun _ _ => Nat.zero_le _⟩

theorem steady_initial (component : σ) : Steady (System.initial component) :=
  ⟨nofun, rfl, fun _ h => absurd h List.not_mem_nil⟩

theorem counted_afterFailure (h : Counted cfg s) : Counted cfg (afterFailure cfg s) := by
  constructor
  · intro hretry
    unfold afterFailure at hretry
    dsimp only at hretry
    split_ifs at hretry
    · cases hretry
    · exact h.retries hretry
  · intro hinfinite hphase
    by_contra hlt
    refine hphase ?_
    have hover : 10 < s.numConnectionFailure + 1 := Nat.lt_of_not_le hlt
    simp [afterFailure, hinfinite, hover]

theorem handleStep_eq_some {k : Nat} {h : Handler} (hs : handleStep cfg s k h = some t) :
    ∃ body, h.stage = .received body ∧
      ((consumeOne cfg s.component body = .panicked ∧ t = { s with panicked := true }) ∨
        ∃ after stage, t = { s.setHandler k h stage with component := after } ∧
          ((∃ err, consumeOne cfg s.component body = .returned after (some err) ∧
              stage = .sending err) ∨
            consumeOne cfg s.component body = .returned after none ∧ stage = .ended)) := by
  unfold handleStep at hs
  cases hstage : h.stage with
  | received body =>
    rw [hstage] at hs
    refine ⟨body, rfl, ?_⟩
    cases hconsume : consumeOne cfg s.component body with
    | panicked =>
      simp only [hconsume] at hs
      exact Or.inl ⟨rfl, (Option.some.inj hs).symm⟩
    | returned after result =>
      cases result with
      | none =>
        simp only [hconsume] at hs
        exact Or.inr ⟨after, .ended, (Option.some.inj hs).symm, Or.inr ⟨rfl, rfl⟩⟩
      | some err =>
        simp only [hconsume] at hs
        exact Or.inr ⟨after, .sending err, (Option.some.inj hs).symm, Or.inl ⟨err, rfl, rfl⟩⟩
  | sending err => rw [hstage] at hs; cases hs
  | ended => rw [hstage] at hs; cases hs

theorem receiveErrorStep_eq_some {k : Nat} {h : Handler}
    (hs : receiveErrorStep s k h = some t) : (∃ err, h.stage = .sending err) ∧
      s.phase = .consuming ∧ h.errorsChan = s.calls ∧
        t = { s.setHandler k h .ended with phase := .returning } := by
  unfold receiveErrorStep at hs
  cases hstage : h.stage with
  | sending err =>
    rw [hstage] at hs
    obtain ⟨⟨hphase, hchan⟩, rfl⟩ := guarded_eq_some.mp hs
    exact ⟨⟨err, rfl⟩, hphase, hchan, rfl⟩
  | received body => rw [hstage] at hs; cases hs
  | ended => rw [hstage] at hs; cases hs

theorem Counted.same (h : Counted cfg s)
    (hcommunicator : t.communicator.retry = s.communicator.retry)
    (hcalled : t.stopCalled = s.stopCalled) (hleft : s.phase = .left → t.phase = .left)
    (hcount : t.numConnectionFailure = s.numConnectionFailure) : Counted cfg t := by
  constructor
  · intro hretry
    rw [hcalled]
    exact h.retries (hcommunicator.symm.trans hretry)
  · intro hinfinite hphase
    rw [hcount]
    exact h.counted hinfinite (fun hl => hphase (hleft hl))

theorem Counted.step (h : Counted cfg s) {i : Label} (hs : step cfg s i = some t) :
    Counted cfg t := by
  obtain ⟨-, hs⟩ := step_eq_some.mp hs
  cases i with
  | openFailed | setupFailed | consume =>
    obtain ⟨hphase, rfl⟩ := guarded_eq_some.mp hs
    refine h.same rfl rfl (fun hl => ?_) rfl
    rw [hphase] at hl
    cases hl
  | deliver body =>
    obtain ⟨hphase, rfl⟩ := guarded_eq_some.mp hs
    exact h.same rfl rfl id rfl
  | handle k =>
    obtain ⟨handler, -, hs⟩ := Option.bind_eq_some_iff.mp hs
    obtain ⟨body, -, ⟨-, rfl⟩ | ⟨after, stage, rfl, -⟩⟩ := handleStep_eq_some hs
    · exact h.same rfl rfl id rfl
    · exact h.same rfl rfl id rfl
  | receiveError k =>
    obtain ⟨handler, -, hs⟩ := Option.bind_eq_some_iff.mp hs
    obtain ⟨-, hphase, -, rfl⟩ := receiveErrorStep_eq_some hs
    refine h.same rfl rfl (fun hl => ?_) rfl
    rw [hphase] at hl
    cases hl
  | receiveStop =>
    obtain ⟨stopChan, -, hs⟩ := Option.bind_eq_some_iff.mp hs
    obtain ⟨⟨hphase, -⟩, rfl⟩ := guarded_eq_some.mp hs
    refine h.same rfl rfl (fun hl => ?_) rfl
    rw [hphase] at hl
    cases hl
  | doReturn =>
    obtain ⟨hphase, rfl⟩ := guarded_eq_some.mp hs
    refine h.same rfl rfl (fun hl => ?_) rfl
    rw [hphase] at hl
    cases hl
  | next =>
    obtain ⟨-, rfl⟩ := guarded_eq_some.mp hs
    exact counted_afterFailure h
  | stopConsuming =>
    obtain rfl := Option.some.inj hs
    exact ⟨fun _ => rfl, h.counted⟩

-- nothing waits before the step and nothing is added to the handlers
theorem Steady.of_quiet (h : Steady s) (hphase : s.phase ≠ .consuming)
    (hleaves : t.phase = .left → t.stopCalled = true ∨ 10 < t.failedInARow)
    (hpanicked : t.panicked = s.panicked) (hhandlers : t.handlers = s.handlers) : Steady t := by
  refine ⟨hleaves, hpanicked.trans h.running, fun handler hmem err herr => ?_⟩
  rw [hhandlers] at hmem
  exact absurd herr (h.quiet hphase handler hmem err)

theorem tolerated_handle_iff (h : Steady s) {k : Nat} (hs : act cfg s (.handle k) = some t) :
    Tolerated cfg s (.handle k) ↔ Steady t := by
  obtain ⟨handler, hget, hs⟩ := Option.bind_eq_some_iff.mp hs
  obtain ⟨body, hstage, ⟨hconsume, rfl⟩ | ⟨after, stage, rfl, hstages⟩⟩ := handleStep_eq_some hs
  · refine iff_of_false (fun htol => ?_) (fun ht => by cases ht.running)
    exact (htol handler body hget hstage).1 (panics_iff.mpr hconsume)
  have hlt : k < s.handlers.length := (List.getElem?_eq_some_iff.mp hget).1
  rcases hstages with ⟨err, hconsume, rfl⟩ | ⟨hconsume, rfl⟩
  · constructor
    · intro htol
      refine ⟨h.leaves, h.running, fun handler' hmem err' herr => ?_⟩
      rcases List.mem_or_eq_of_mem_set hmem with hmem | rfl
      · exact h.heard handler' hmem err' herr
      · exact (htol handler body hget hstage).2 (bad_iff.mpr ⟨after, err, hconsume⟩)
    · intro ht handler' body' hget' hstage'
      obtain rfl := Option.some.inj (hget.symm.trans hget')
      obtain rfl := Stage.received.inj (hstage.symm.trans hstage')
      refine ⟨fun hpanics => ?_, fun _ => ?_⟩
      · rw [panics_iff, hconsume] at hpanics
        cases hpanics
      · have hmem : { handler with stage := .sending err } ∈
            s.handlers.set k { handler with stage := .sending err } := List.mem_set hlt _
        exact ht.heard { handler with stage := .sending err } hmem err rfl
  · refine iff_of_true (fun handler' body' hget' hstage' => ?_)
      ⟨h.leaves, h.running, fun handler' hmem err' herr => ?_⟩
    · obtain rfl := Option.some.inj (hget.symm.trans hget')
      obtain rfl := Stage.received.inj (hstage.symm.trans hstage')
      rw [panics_iff, bad_iff, hconsume]
      exact ⟨nofun, fun ⟨_, _, herr⟩ => by cases herr⟩
    · rcases List.mem_or_eq_of_mem_set hmem with hmem | rfl
      · exact h.heard handler' hmem err' herr
      · cases herr

theorem tolerated_receiveError_iff (h : Steady s) {k : Nat}
    (hs : act cfg s (.receiveError k) = some t) :
    Tolerated cfg s (.receiveError k) ↔ Steady t := by
  obtain ⟨handler, hget, hs⟩ := Option.bind_eq_some_iff.mp hs
  obtain ⟨-, -, -, rfl⟩ := receiveErrorStep_eq_some hs
  constructor
  · intro htol
    refine ⟨nofun, h.running, fun handler' hmem err herr => ?_⟩
    obtain ⟨j, hj⟩ := List.mem_iff_getElem?.mp hmem
    have hset : (s.handlers.set k { handler with stage := .ended })[j]? = some handler' := hj
    rw [List.getElem?_set] at hset
    split_ifs at hset with hk
    · obtain rfl := Option.some.inj hset
      cases herr
    · exact absurd (htol j handler' err hset herr) (Ne.symm hk)
  · intro ht j handler' err hget' herr
    by_contra hne
    have hmem : handler' ∈ s.handlers.set k { handler with stage := .ended } := by
      refine List.mem_of_getElem? (i := j) ?_
      rw [List.getElem?_set_ne (Ne.symm hne)]
      exact hget'
    cases (ht.heard handler' hmem err herr).1

theorem tolerated_receiveStop_iff (h : Steady s) (hs : act cfg s .receiveStop = some t) :
    Tolerated cfg s .receiveStop ↔ Steady t := by
  obtain ⟨stopChan, -, hs⟩ := Option.bind_eq_some_iff.mp hs
  obtain ⟨-, rfl⟩ := guarded_eq_some.mp hs
  constructor
  · exact fun htol => ⟨nofun, h.running, fun handler hmem err herr =>
      absurd herr (htol handler hmem err)⟩
  · intro ht handler hmem err herr
    cases (ht.heard handler hmem err herr).1

-- the loop ends at the first return that makes more than ten
theorem tolerated_next_iff (h : Steady s) (hc : Counted cfg s) (hs : act cfg s .next = some t) :
    Tolerated cfg s .next ↔ Steady t := by
  obtain ⟨hphase, rfl⟩ := guarded_eq_some.mp hs
  have hleaves : Steady (afterFailure cfg s) ↔ ((afterFailure cfg s).phase = .left →
      s.stopCalled = true ∨ 10 < s.failedInARow) := by
    refine ⟨Steady.leaves, fun hl => h.of_quiet (by rw [hphase]; decide) hl rfl rfl⟩
  rw [hleaves, Tolerated]
  cases hinfinite : cfg.infiniteReconnectionTries with
  | true => simp [afterFailure, hinfinite]
  | false =>
    have hcount : s.numConnectionFailure ≤ 10 :=
      hc.counted hinfinite (by rw [hphase]; decide)
    by_cases hten : s.numConnectionFailure < 10
    · have hle : ¬ 10 < s.numConnectionFailure + 1 := by omega
      simp [afterFailure, hinfinite, hten, hle]
    · obtain heq : s.numConnectionFailure = 10 := by omega
      simp [afterFailure, hinfinite, heq]

theorem tolerated_iff (h : Steady s) (hc : Counted cfg s) {i : Label}
    (hs : step cfg s i = some t) : Tolerated cfg s i ↔ Steady t := by
  obtain ⟨-, hs⟩ := step_eq_some.mp hs
  cases i with
  | handle k => exact tolerated_handle_iff h hs
  | receiveError k => exact tolerated_receiveError_iff h hs
  | receiveStop => exact tolerated_receiveStop_iff h hs
  | next => exact tolerated_next_iff h hc hs
  | openFailed | setupFailed | consume =>
    obtain ⟨hphase, rfl⟩ := guarded_eq_some.mp hs
    exact iff_of_true trivial (h.of_quiet (by rw [hphase]; decide) nofun rfl rfl)
  | deliver body =>
    obtain ⟨hphase, rfl⟩ := guarded_eq_some.mp hs
    refine iff_of_true trivial ⟨h.leaves, h.running, fun handler hmem err herr => ?_⟩
    rcases List.mem_append.mp hmem with hmem | hmem
    · exact h.heard handler hmem err herr
    · obtain rfl := List.mem_singleton.mp hmem
      cases herr
  | doReturn =>
    obtain ⟨hphase, rfl⟩ := guarded_eq_some.mp hs
    refine iff_of_true trivial (h.of_quiet (by rw [hphase]; decide) (fun hl => ?_) rfl rfl)
    dsimp only at hl
    split_ifs at hl with hretry
    exact Or.inl (hc.retries (Bool.not_eq_true _ ▸ hretry))
  | stopConsuming =>
    obtain rfl := Option.some.inj hs
    exact iff_of_true trivial ⟨fun _ => Or.inl rfl, h.running, h.heard⟩

theorem steady_iff_tolerated (cfg : Config σ) (component : σ) {is : List Label} {u : System σ}
    (hrun : exec (step cfg) (.initial component) is = some u) :
    Always (step cfg) Steady (.initial component) is ↔
      Meets (step cfg) (Tolerated cfg) (.initial component) is := by
  refine always_iff_meets (I := fun _ s => Steady s ∧ Counted cfg s) hrun
    ⟨steady_initial component, counted_initial component⟩ (steady_initial component) ?_ ?_
  · rintro js i s t - ⟨hsteady, hcounted⟩ hc hs
    exact ⟨(tolerated_iff hsteady hcounted hs).mp hc, hcounted.step hs⟩
  · rintro js i s t - ⟨hsteady, hcounted⟩ hs
    exact tolerated_iff hsteady hcounted hs

def Stage.sends : Stage → Bool
  | .sending _ => true
  | _ => false

def tolerates (cfg : Config σ) (s : System σ) : Label → Bool
  | .handle k => (s.handlers[k]?).all (fun h =>
      match h.stage with
      | .received body =>
        match consumeOne cfg s.component body with
        | .returned _ none => true
        | .returned _ (some _) => s.phase = .consuming && h.errorsChan = s.calls
        | .panicked => false
      | _ => true)
  | .receiveError k => s.handlers.zipIdx.all (fun h => !h.1.stage.sends || h.2 = k)
  | .receiveStop => s.handlers.all (fun h => !h.stage.sends)
  | .next => cfg.infiniteReconnectionTries || s.numConnectionFailure < 10 || s.stopCalled ||
      s.numConnectionFailure < s.failedInARow
  | _ => true

theorem tolerated_of_tolerates {i : Label} (h : tolerates cfg s i = true) : Tolerated cfg s i := by
  cases i with
  | handle k =>
    intro handler body hget hstage
    simp only [tolerates, hget, hstage, Option.all_some] at h
    rw [panics_iff, bad_iff]
    cases hconsume : consumeOne cfg s.component body with
    | panicked => simp [hconsume] at h
    | returned after result =>
      refine ⟨nofun, ?_⟩
      rintro ⟨_, err, herr⟩
      obtain ⟨rfl, rfl⟩ := Processed.returned.inj herr
      simpa [hconsume] using h
  | receiveError k =>
    intro j handler err hget hstage
    have hmem : (handler, j) ∈ s.handlers.zipIdx := List.mem_zipIdx_iff_getElem?.mpr hget
    simpa [hstage, Stage.sends] using List.all_eq_true.mp h _ hmem
  | receiveStop =>
    intro handler hmem err hstage
    have hquiet := List.all_eq_true.mp h handler hmem
    rw [hstage] at hquiet
    cases hquiet
  | next => simpa [tolerates, Tolerated, or_assoc] using h
  | openFailed | setupFailed | consume | deliver body | doReturn | stopConsuming => trivial

end Runs

-- a worker that gets nothing but broken messages
def brokenConfig : Config Unit where
  infiniteReconnectionTries := false
  unmarshal := fun _ => .error "unexpected end of JSON input"
  process := workerProcess (fun _ _ => some "unexpected end of JSON input") (fun _ _ => some ())

-- the connection fails once after a message that is not JSON
def recovered : List Label :=
  [.consume, .deliver [123], .handle 0, .receiveError 0, .doReturn, .next, .openFailed, .doReturn,
    .next, .consume]

theorem recovered_steady :
    (exec (step brokenConfig) (.initial ()) recovered).isSome = true ∧
      Always (step brokenConfig) Steady (.initial ()) recovered := by
  refine ⟨by decide, (steady_iff_tolerated brokenConfig () rfl).mpr ?_⟩
  exact meets_of_check (fun _ _ _ h => tolerated_of_tolerates h) (by decide)

def badRound (k : Nat) : List Label :=
  [.consume, .deliver [123], .handle k, .receiveError k, .doReturn, .next]

-- eleven bad messages, each in a call that connects
def badMessages : List Label := (List.range 11).flatMap badRound

def badTwice : List Label :=
  [.consume, .deliver [123], .deliver [], .handle 0, .handle 1, .receiveError 0]

theorem badMessages_not_steady :
    ¬ (∀ is u, exec (step brokenConfig) (.initial ()) is = some u → u.phase = .left →
        u.stopCalled = true ∨ 10 < u.failedInARow) ∧
      ¬ (∀ is u, exec (step brokenConfig) (.initial ()) is = some u →
        ∀ h ∈ u.handlers, ∀ err, h.stage = .sending err →
          u.phase = .consuming ∧ h.errorsChan = u.calls) := by
  constructor
  · intro h
    rcases h badMessages _ rfl (by decide) with hstop | hrow
    · exact absurd hstop (by decide)
    · exact absurd hrow (by decide)
  · intro h
    exact absurd (h badTwice _ rfl ⟨1, .sending "Received an empty message."⟩ (by decide) _ rfl).1
      (by decide)

end FogFlow.ConsumerLoop
