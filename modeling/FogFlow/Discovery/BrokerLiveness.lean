import FogFlow.Library.Execution
import FogFlow.Library.GoMap
import FogFlow.Library.Heartbeat
import Mathlib.Data.List.InsertIdx

namespace FogFlow.Discovery.BrokerLiveness

open Execution

-- times are milliseconds
structure BrokerProfile where
  bid : String
  myURL : String
  lastHeartbeatUpdate : ℕ
deriving DecidableEq, Repr

def BrokerProfile.isLive (now : ℕ) (broker : BrokerProfile) (duration : ℤ) : Bool :=
  !decide (duration ≤ ((now - broker.lastHeartbeatUpdate) / 1000 : ℕ))

-- a running broker: the heartbeats that reached the network last, and those lost since, are what
-- its timer cannot see
structure ThinBroker where
  myURL : String
  counter : ℕ
  nextTick : ℕ
  lastSent : Option ℕ
  lost : ℕ
deriving DecidableEq, Repr

-- the network delivers within the delay or loses a few heartbeats in a row, and a timer that is
-- due runs before it is late
structure Environment where
  heartbeatInterval : ℤ
  delay : ℕ
  lateness : ℕ
  losses : ℕ

structure System where
  now : ℕ
  brokers : GoMap ThinBroker
  silentSince : GoMap ℕ
  heartbeats : List (BrokerProfile × ℕ)
  brokerList : GoMap BrokerProfile
  nextCheck : ℕ
  lastCheck : ℕ

def System.initial : System := ⟨0, ∅, ∅, [], ∅, 2000, 0⟩

inductive Label where
  | pass (elapsed : ℕ)
  | start (bid myURL : String) (late : ℕ) (posted : Bool)
  | stop (bid : String)
  | onTimer (bid : String) (posted : Bool)
  | onBrokerHeartbeat (k : ℕ)
  | deleteRegistration (bid : String)
  | checkBrokerList (rank : String → Nat)

def System.sendHeartBeat (s : System) (bid : String) (tb : ThinBroker) : System :=
  { s with
    brokers := s.brokers.set bid { tb with lastSent := some s.now, lost := 0 }
    silentSince := s.silentSince.delete bid
    heartbeats := s.heartbeats ++ [(⟨bid, tb.myURL, 0⟩, s.now)] }

-- registerMyself sends the first heartbeat, and the ticker starts thereafter
def start (env : Environment) (bid myURL : String) (late : ℕ) (posted : Bool) (s : System) :
    Option System :=
  if (s.brokers.get bid).isSome ∨ env.lateness < late then none
  else
    let tb : ThinBroker := ⟨myURL, 0, s.now + 2000 + late, none, 0⟩
    if posted then some (s.sendHeartBeat bid tb)
    else some { s with brokers := s.brokers.set bid tb }

def onTimer (env : Environment) (bid : String) (posted : Bool) (s : System) : Option System :=
  match s.brokers.get bid with
  | none => none
  | some tb =>
      if s.now < tb.nextTick then none
      else if 5 ≤ tb.counter then
        let next := { tb with counter := 1, nextTick := tb.nextTick + 2000 }
        if posted then some (s.sendHeartBeat bid next)
        else if env.losses ≤ tb.lost then none
        else some { s with brokers := s.brokers.set bid { next with lost := tb.lost + 1 } }
      else some { s with
        brokers := s.brokers.set bid
          { tb with counter := tb.counter + 1, nextTick := tb.nextTick + 2000 } }

def recorded (now : ℕ) (brokerProfile : BrokerProfile) (brokerList : GoMap BrokerProfile) :
    GoMap BrokerProfile :=
  match brokerList.get brokerProfile.bid with
  | some broker => brokerList.set brokerProfile.bid
      { broker with myURL := brokerProfile.myURL, lastHeartbeatUpdate := now }
  | none => brokerList.set brokerProfile.bid { brokerProfile with lastHeartbeatUpdate := now }

def onBrokerHeartbeat (k : ℕ) (s : System) : Option System :=
  match s.heartbeats[k]? with
  | none => none
  | some (brokerProfile, _) => some { s with
      heartbeats := s.heartbeats.eraseIdx k
      brokerList := recorded s.now brokerProfile s.brokerList }

def checkBrokerList (env : Environment) (rank : String → Nat) (s : System) : Option System :=
  if s.now < s.nextCheck then none
  else some { s with
    brokerList := (s.brokerList.range rank).foldl (fun list e =>
      if e.2.isLive s.now (env.heartbeatInterval * 6) then list else list.delete e.1) s.brokerList
    nextCheck := s.nextCheck + 2000
    lastCheck := s.now }

def inTime (env : Environment) (s : System) (later : ℕ) : Bool :=
  s.brokers.values.all (fun tb => later ≤ tb.nextTick + env.lateness) &&
    s.heartbeats.all (fun h => later ≤ h.2 + env.delay) && later ≤ s.nextCheck + env.lateness

def pass (env : Environment) (elapsed : ℕ) (s : System) : Option System :=
  if inTime env s (s.now + elapsed) then some { s with now := s.now + elapsed } else none

def stop (bid : String) (s : System) : Option System :=
  if (s.brokers.get bid).isSome then
    some { s with
      brokers := s.brokers.delete bid
      silentSince := s.silentSince.set bid s.now }
  else none

-- the registration that is deleted is the one of the broker itself
def step (env : Environment) (s : System) : Label → Option System
  | .pass elapsed => pass env elapsed s
  | .start bid myURL late posted => start env bid myURL late posted s
  | .stop bid => stop bid s
  | .onTimer bid posted => onTimer env bid posted s
  | .onBrokerHeartbeat k => onBrokerHeartbeat k s
  | .deleteRegistration bid => some { s with brokerList := s.brokerList.delete bid }
  | .checkBrokerList rank => checkBrokerList env rank s

def timing (env : Environment) : Heartbeat.Timing where
  period := 12000 + 10000 * env.losses + 2 * env.lateness
  delay := env.delay
  timeout := 1000 * (env.heartbeatInterval * 6).toNat
  interval := 2000 + env.lateness

def System.monitor (s : System) : Heartbeat.State String where
  now := s.now
  lastSent bid := (s.brokers.get bid).bind ThinBroker.lastSent
  stoppedAt bid := s.silentSince.get bid
  inflight := s.heartbeats.map (fun h => (h.1.bid, h.2))
  table bid := (s.brokerList.get bid).map BrokerProfile.lastHeartbeatUpdate
  checked := s.lastCheck

-- the tick at which the counter has reached five comes in time for the next heartbeat
structure OnSchedule (env : Environment) (tb : ThinBroker) : Prop where
  counter : tb.counter ≤ 5
  lost : tb.lost ≤ env.losses
  due : ∀ sent, tb.lastSent = some sent →
    tb.nextTick + 2000 * (5 - tb.counter) ≤ sent + 12000 + env.lateness + 10000 * tb.lost

structure Scheduled (env : Environment) (s : System) : Prop where
  brokers : ∀ bid tb, s.brokers.get bid = some tb → OnSchedule env tb
  check : s.nextCheck ≤ s.lastCheck + 2000

variable {env : Environment} {s t u : System} {l : Label} {bid : String}

theorem onSchedule_sent {tb : ThinBroker} {now : ℕ} (hcounter : tb.counter ≤ 5)
    (hdue : tb.nextTick + 2000 * (5 - tb.counter) ≤ now + 12000 + env.lateness) :
    OnSchedule env { tb with lastSent := some now, lost := 0 } := by
  refine ⟨hcounter, Nat.zero_le _, fun sent hsent => ?_⟩
  obtain rfl := Option.some.inj hsent
  dsimp only
  omega

theorem Scheduled.set (h : Scheduled env s) {tb : ThinBroker} (htb : OnSchedule env tb)
    (bid : String) : ∀ bid' tb', (s.brokers.set bid tb).get bid' = some tb' →
      OnSchedule env tb' := by
  intro bid' tb' hget
  rw [GoMap.get_set] at hget
  split_ifs at hget
  · rwa [← Option.some.inj hget]
  · exact h.brokers bid' tb' hget

theorem Scheduled.sendHeartBeat (h : Scheduled env s) {tb : ThinBroker}
    (hcounter : tb.counter ≤ 5)
    (hdue : tb.nextTick + 2000 * (5 - tb.counter) ≤ s.now + 12000 + env.lateness) :
    Scheduled env (s.sendHeartBeat bid tb) :=
  ⟨h.set (onSchedule_sent hcounter hdue) bid, h.check⟩

theorem Scheduled.start {myURL : String} {late : ℕ} {posted : Bool} (h : Scheduled env s)
    (hstep : start env bid myURL late posted s = some t) : Scheduled env t := by
  unfold BrokerLiveness.start at hstep
  split_ifs at hstep with hrefused hposted
  · rw [not_or, not_lt] at hrefused
    rw [← Option.some.inj hstep]
    refine h.sendHeartBeat (Nat.zero_le _) ?_
    dsimp only
    omega
  · rw [← Option.some.inj hstep]
    have htb : OnSchedule env ⟨myURL, 0, s.now + 2000 + late, none, 0⟩ :=
      ⟨Nat.zero_le _, Nat.zero_le _, fun sent hsent => by cases hsent⟩
    exact ⟨h.set htb bid, h.check⟩

theorem Scheduled.onTimer {posted : Bool} (h : Scheduled env s)
    (hstep : onTimer env bid posted s = some t) : Scheduled env t := by
  unfold BrokerLiveness.onTimer at hstep
  cases hget : s.brokers.get bid with
  | none =>
    rw [hget] at hstep
    cases hstep
  | some tb =>
    obtain ⟨hcounter, hlost, hdue⟩ := h.brokers bid tb hget
    rw [hget] at hstep
    dsimp only at hstep
    split_ifs at hstep with hearly hfive hposted hlosses
    · rw [← Option.some.inj hstep]
      refine h.sendHeartBeat (by dsimp only; omega) ?_
      dsimp only
      omega
    · rw [← Option.some.inj hstep]
      have htb : OnSchedule env
          ⟨tb.myURL, 1, tb.nextTick + 2000, tb.lastSent, tb.lost + 1⟩ := by
        refine ⟨Nat.le_add_left 1 4, Nat.lt_of_not_le hlosses, fun sent hsent => ?_⟩
        have hold := hdue sent hsent
        dsimp only
        omega
      exact ⟨h.set htb bid, h.check⟩
    · rw [← Option.some.inj hstep]
      have htb : OnSchedule env
          ⟨tb.myURL, tb.counter + 1, tb.nextTick + 2000, tb.lastSent, tb.lost⟩ := by
        refine ⟨Nat.lt_of_not_le hfive, hlost, fun sent hsent => ?_⟩
        have hold := hdue sent hsent
        dsimp only
        omega
      exact ⟨h.set htb bid, h.check⟩

theorem Scheduled.step (h : Scheduled env s) (hstep : step env s l = some t) :
    Scheduled env t := by
  cases l with
  | pass elapsed =>
    change pass env elapsed s = some t at hstep
    unfold pass at hstep
    split_ifs at hstep
    rw [← Option.some.inj hstep]
    exact ⟨h.brokers, h.check⟩
  | start bid myURL late posted => exact h.start hstep
  | stop bid =>
    change stop bid s = some t at hstep
    unfold stop at hstep
    split_ifs at hstep
    rw [← Option.some.inj hstep]
    refine ⟨fun bid' tb hget => ?_, h.check⟩
    exact h.brokers bid' tb (GoMap.get_of_get_delete hget).2
  | onTimer bid posted => exact h.onTimer hstep
  | onBrokerHeartbeat k =>
    change onBrokerHeartbeat k s = some t at hstep
    unfold onBrokerHeartbeat at hstep
    split at hstep
    · cases hstep
    · rw [← Option.some.inj hstep]
      exact ⟨h.brokers, h.check⟩
  | deleteRegistration bid =>
    rw [← Option.some.inj hstep]
    exact ⟨h.brokers, h.check⟩
  | checkBrokerList rank =>
    change checkBrokerList env rank s = some t at hstep
    unfold checkBrokerList at hstep
    split_ifs at hstep with hearly
    rw [← Option.some.inj hstep]
    refine ⟨h.brokers, ?_⟩
    dsimp only
    omega

theorem scheduled_initial : Scheduled env .initial :=
  ⟨(fun _ _ hget => by cases hget), le_refl 2000⟩

theorem monitor_sendHeartBeat (s : System) (bid : String) (tb : ThinBroker) :
    Heartbeat.Step (timing env) s.monitor (.send bid) (s.sendHeartBeat bid tb).monitor := by
  have hmonitor : (s.sendHeartBeat bid tb).monitor = { s.monitor with
      lastSent := Function.update s.monitor.lastSent bid (some s.monitor.now)
      stoppedAt := Function.update s.monitor.stoppedAt bid none
      inflight := s.monitor.inflight ++ [(bid, s.monitor.now)] } := by
    unfold System.monitor System.sendHeartBeat
    congr
    · funext bid'
      simp only [GoMap.get_set, Function.update_apply]
      split_ifs <;> rfl
    · funext bid'
      simp only [GoMap.get_delete, Function.update_apply]
    · simp
  rw [hmonitor]
  exact .send

-- a step that only moves the timer of a broker
theorem monitor_set (s : System) {tb' : ThinBroker}
    (hget : (s.brokers.get bid).bind ThinBroker.lastSent = tb'.lastSent) :
    ({ s with brokers := s.brokers.set bid tb' } : System).monitor = s.monitor := by
  unfold System.monitor
  congr
  funext bid'
  simp only [GoMap.get_set]
  split_ifs with hbid
  · rw [hbid, hget]
    rfl
  · rfl

-- the seconds are cut off, and the duration is a whole number of them
theorem isLive_iff (hHI : 0 < env.heartbeatInterval) (now : ℕ) (broker : BrokerProfile) :
    broker.isLive now (env.heartbeatInterval * 6) =
      decide (now < broker.lastHeartbeatUpdate + (timing env).timeout) := by
  rw [BrokerProfile.isLive, ← decide_not, decide_eq_decide]
  dsimp only [timing]
  omega

theorem get_recorded (now : ℕ) (brokerProfile : BrokerProfile)
    (brokerList : GoMap BrokerProfile) (bid : String) :
    ((recorded now brokerProfile brokerList).get bid).map BrokerProfile.lastHeartbeatUpdate =
      if bid = brokerProfile.bid then some now
      else (brokerList.get bid).map BrokerProfile.lastHeartbeatUpdate := by
  unfold recorded
  split <;>
  · rw [GoMap.get_set]
    split_ifs <;> rfl

-- what the step is to the monitor, which does not see a tick without a heartbeat
def Simulated (env : Environment) (l : Label) (m m' : Heartbeat.State String) : Prop :=
  ∃ ls, Heartbeat.Run (timing env) m ls m' ∧ (∀ bid, .stop bid ∈ ls → l = .stop bid) ∧
    ∀ bid, .forget bid ∈ ls → l = .deleteRegistration bid

theorem simulated_of_step {m m' : Heartbeat.State String} {hl : Heartbeat.Label String}
    (h : Heartbeat.Step (timing env) m hl m') (hstop : ∀ bid, hl = .stop bid → l = .stop bid)
    (hforget : ∀ bid, hl = .forget bid → l = .deleteRegistration bid) :
    Simulated env l m m' :=
  ⟨[hl], .cons h .nil, fun bid hmem => hstop bid (List.mem_singleton.mp hmem).symm,
    fun bid hmem => hforget bid (List.mem_singleton.mp hmem).symm⟩

theorem simulated_of_eq {m m' : Heartbeat.State String} (h : m' = m) : Simulated env l m m' :=
  ⟨[], h ▸ .nil, (fun _ hmem => by cases hmem), (fun _ hmem => by cases hmem)⟩

theorem simulated_pass {elapsed : ℕ} (hsch : Scheduled env s)
    (hstep : pass env elapsed s = some t) :
    Simulated env (.pass elapsed) s.monitor t.monitor := by
  unfold pass at hstep
  split_ifs at hstep with hdue
  rw [inTime, Bool.and_eq_true, Bool.and_eq_true, decide_eq_true_iff] at hdue
  obtain ⟨⟨htimers, hmessages⟩, hcheck⟩ := hdue
  rw [← Option.some.inj hstep]
  refine simulated_of_step (.pass (fun bid sent hsent => ?_) (fun m hm => ?_) ?_)
    (fun _ heq => by cases heq) (fun _ heq => by cases heq)
  · obtain ⟨tb, hget, hlast⟩ := Option.bind_eq_some_iff.mp hsent
    obtain ⟨hcounter, hlost, hdue⟩ := hsch.brokers bid tb hget
    have htimer := of_decide_eq_true
      (List.all_eq_true.mp htimers tb (GoMap.mem_values.mpr ⟨bid, hget⟩))
    have hnext := hdue sent hlast
    dsimp only [System.monitor, timing]
    omega
  · obtain ⟨h, hh, rfl⟩ := List.mem_map.mp hm
    exact of_decide_eq_true (List.all_eq_true.mp hmessages h hh)
  · have hnext := hsch.check
    dsimp only [System.monitor, timing]
    omega

theorem simulated_start {myURL : String} {late : ℕ} {posted : Bool}
    (hstep : start env bid myURL late posted s = some t) :
    Simulated env (.start bid myURL late posted) s.monitor t.monitor := by
  unfold start at hstep
  split_ifs at hstep with hrefused hposted
  · rw [← Option.some.inj hstep]
    exact simulated_of_step (monitor_sendHeartBeat s bid _) (fun _ heq => by cases heq)
      (fun _ heq => by cases heq)
  · rw [← Option.some.inj hstep]
    rw [not_or, Option.not_isSome_iff_eq_none] at hrefused
    exact simulated_of_eq (monitor_set s (by rw [hrefused.1]; rfl))

theorem simulated_onTimer {posted : Bool} (hstep : onTimer env bid posted s = some t) :
    Simulated env (.onTimer bid posted) s.monitor t.monitor := by
  unfold onTimer at hstep
  cases hget : s.brokers.get bid with
  | none =>
    rw [hget] at hstep
    cases hstep
  | some tb =>
    rw [hget] at hstep
    dsimp only at hstep
    split_ifs at hstep with hearly hfive hposted hlosses
    · rw [← Option.some.inj hstep]
      exact simulated_of_step (monitor_sendHeartBeat s bid _) (fun _ heq => by cases heq)
        (fun _ heq => by cases heq)
    · rw [← Option.some.inj hstep]
      exact simulated_of_eq (monitor_set s (by rw [hget]; rfl))
    · rw [← Option.some.inj hstep]
      exact simulated_of_eq (monitor_set s (by rw [hget]; rfl))

theorem simulated_stop (hstep : stop bid s = some t) :
    Simulated env (.stop bid) s.monitor t.monitor := by
  unfold stop at hstep
  split_ifs at hstep
  rw [← Option.some.inj hstep]
  have hmonitor : ({ s with
      brokers := s.brokers.delete bid
      silentSince := s.silentSince.set bid s.now } : System).monitor = { s.monitor with
        lastSent := Function.update s.monitor.lastSent bid none
        stoppedAt := Function.update s.monitor.stoppedAt bid (some s.monitor.now) } := by
    unfold System.monitor
    congr
    · funext bid'
      simp only [GoMap.get_delete, Function.update_apply]
      split_ifs <;> rfl
    · funext bid'
      simp only [GoMap.get_set, Function.update_apply]
  rw [hmonitor]
  exact simulated_of_step .stop (fun _ heq => by cases heq; rfl) (fun _ heq => by cases heq)

theorem monitor_onBrokerHeartbeat {k : ℕ} (hstep : onBrokerHeartbeat k s = some t) :
    Heartbeat.Step (timing env) s.monitor (.arrive k) t.monitor := by
  unfold onBrokerHeartbeat at hstep
  cases hget : s.heartbeats[k]? with
  | none =>
    rw [hget] at hstep
    cases hstep
  | some h =>
    rw [hget] at hstep
    rw [← Option.some.inj hstep]
    have hmember : s.monitor.inflight[k]? = some (h.1.bid, h.2) := by
      rw [System.monitor, List.getElem?_map, hget, Option.map_some]
    have hmonitor : ({ s with
        heartbeats := s.heartbeats.eraseIdx k
        brokerList := recorded s.now h.1 s.brokerList } : System).monitor = { s.monitor with
          inflight := s.monitor.inflight.eraseIdx k
          table := Function.update s.monitor.table h.1.bid (some s.monitor.now) } := by
      unfold System.monitor
      congr
      · exact (List.eraseIdx_map _ _ _).symm
      · funext bid
        dsimp only
        rw [get_recorded, Function.update_apply]
    rw [hmonitor]
    exact .arrive hmember

theorem simulated_deleteRegistration (s : System) (bid : String) :
    Simulated env (.deleteRegistration bid) s.monitor
      ({ s with brokerList := s.brokerList.delete bid } : System).monitor := by
  have hmonitor : ({ s with brokerList := s.brokerList.delete bid } : System).monitor =
      { s.monitor with table := Function.update s.monitor.table bid none } := by
    unfold System.monitor
    congr
    funext bid'
    simp only [GoMap.get_delete, Function.update_apply]
    split_ifs <;> rfl
  rw [hmonitor]
  exact simulated_of_step .forget (fun _ heq => by cases heq) (fun _ heq => by cases heq; rfl)

theorem simulated_checkBrokerList (hHI : 0 < env.heartbeatInterval) {rank : String → Nat}
    (hstep : checkBrokerList env rank s = some t) :
    Simulated env (.checkBrokerList rank) s.monitor t.monitor := by
  unfold checkBrokerList at hstep
  split_ifs at hstep
  rw [← Option.some.inj hstep]
  have hmonitor : ({ s with
      brokerList := (s.brokerList.range rank).foldl (fun list e =>
        if e.2.isLive s.now (env.heartbeatInterval * 6) then list else list.delete e.1)
        s.brokerList
      nextCheck := s.nextCheck + 2000
      lastCheck := s.now } : System).monitor = { s.monitor with
        table := fun bid => (s.monitor.table bid).filter
          (fun last => s.monitor.now < last + (timing env).timeout)
        checked := s.monitor.now } := by
    unfold System.monitor
    congr
    funext bid
    dsimp only
    rw [GoMap.get_sweep (p := fun broker : BrokerProfile => broker.isLive s.now (env.heartbeatInterval * 6))]
    cases s.brokerList.get bid with
    | none => rfl
    | some broker =>
      simp only [Option.filter_some, Option.map_some, isLive_iff hHI]
      split_ifs <;> rfl
  rw [hmonitor]
  exact simulated_of_step .check (fun _ heq => by cases heq) (fun _ heq => by cases heq)

theorem simulates (hHI : 0 < env.heartbeatInterval) (hsch : Scheduled env s)
    (hstep : step env s l = some t) : Simulated env l s.monitor t.monitor := by
  cases l with
  | pass elapsed => exact simulated_pass hsch hstep
  | start bid myURL late posted => exact simulated_start hstep
  | stop bid => exact simulated_stop hstep
  | onTimer bid posted => exact simulated_onTimer hstep
  | onBrokerHeartbeat k =>
    exact simulated_of_step (monitor_onBrokerHeartbeat hstep) (fun _ heq => by cases heq)
      (fun _ heq => by cases heq)
  | deleteRegistration bid =>
    rw [← Option.some.inj hstep]
    exact simulated_deleteRegistration s bid
  | checkBrokerList rank => exact simulated_checkBrokerList hHI hstep

theorem sound_initial : Heartbeat.Sound (timing env) System.initial.monitor where
  sender _ _ h := by cases h
  message _ h := by cases h
  entry _ _ h := by cases h
  check := ⟨le_rfl, Nat.zero_le _⟩
  silentMessage _ _ h := by cases h
  silentEntry _ _ h := by cases h

-- the run of the system up to here, as the monitor saw it
structure Reached (env : Environment) (s : System) : Prop where
  scheduled : Scheduled env s
  sound : Heartbeat.Sound (timing env) s.monitor

theorem timeout_pos (hHI : 0 < env.heartbeatInterval) : 0 < (timing env).timeout := by
  dsimp only [timing]
  omega

theorem Reached.step (hHI : 0 < env.heartbeatInterval) (h : Reached env s)
    (hstep : step env s l = some t) : Reached env t := by
  obtain ⟨ls, hrun, -, -⟩ := simulates hHI h.scheduled hstep
  exact ⟨h.scheduled.step hstep, h.sound.run (timeout_pos hHI) hrun⟩

theorem reached_of_exec (hHI : 0 < env.heartbeatInterval) {ls : List Label}
    (h : exec (step env) .initial ls = some s) : Reached env s :=
  exec_invariant h ⟨scheduled_initial, sound_initial⟩ (fun _ _ _ hr hstep => hr.step hHI hstep)

theorem covered_exec (hHI : 0 < env.heartbeatInterval)
    (hlong : (timing env).period + (timing env).delay < (timing env).timeout)
    (hreached : Reached env s) (hcov : Heartbeat.Covered (timing env) bid s.monitor)
    {ls : List Label} (hrun : exec (step env) s ls = some t) (hstop : .stop bid ∉ ls)
    (hdelete : .deleteRegistration bid ∉ ls) :
    Heartbeat.Covered (timing env) bid t.monitor := by
  induction ls generalizing s with
  | nil =>
    rw [← Option.some.inj hrun]
    exact hcov
  | cons l ls ih =>
    obtain ⟨u, hu, hrest⟩ := Option.bind_eq_some_iff.mp hrun
    rw [List.mem_cons, not_or] at hstop hdelete
    obtain ⟨hls, hmonitor, hstops, hforgets⟩ := simulates hHI hreached.scheduled hu
    refine ih (hreached.step hHI hu) ?_ hrest hstop.2 hdelete.2
    exact hcov.run hlong hreached.sound hmonitor (fun hmem => hstop.1 (hstops bid hmem).symm)
      (fun hmem => hdelete.1 (hforgets bid hmem).symm)

-- a broker that has been heard of since it started is listed as long as it runs
theorem heard_broker_listed {before after : List Label} {k sent : ℕ} {profile : BrokerProfile}
    {tb : ThinBroker} (hHI : 0 < env.heartbeatInterval)
    (hlong : 12000 + 10000 * env.losses + 2 * env.lateness + env.delay <
      6000 * env.heartbeatInterval)
    (hbefore : exec (step env) .initial before = some s)
    (hposted : s.heartbeats[k]? = some (profile, sent))
    (hrunning : s.brokers.get profile.bid = some tb) (hsent : tb.lastSent ≠ none)
    (hrun : exec (step env) s (.onBrokerHeartbeat k :: after) = some u)
    (hstop : .stop profile.bid ∉ after) (hdelete : .deleteRegistration profile.bid ∉ after) :
    ∃ listed, u.brokerList.get profile.bid = some listed := by
  have hreached := reached_of_exec hHI hbefore
  obtain ⟨t, hstep, hafter⟩ := Option.bind_eq_some_iff.mp hrun
  obtain ⟨last, hlast⟩ := Option.ne_none_iff_exists'.mp hsent
  have hlimit : (timing env).period + (timing env).delay < (timing env).timeout := by
    dsimp only [timing]
    omega
  have hmember : s.monitor.inflight[k]? = some (profile.bid, sent) := by
    rw [System.monitor, List.getElem?_map, hposted, Option.map_some]
  have hlistening : s.monitor.lastSent profile.bid = some last := by
    change (s.brokers.get profile.bid).bind ThinBroker.lastSent = some last
    rw [hrunning]
    exact hlast
  have hheard : Heartbeat.Covered (timing env) profile.bid t.monitor :=
    Heartbeat.covered_of_arrive hreached.sound hmember hlistening
      (monitor_onBrokerHeartbeat hstep)
  obtain ⟨r, -, hr, -⟩ := covered_exec hHI hlimit (hreached.step hHI hstep) hheard hafter hstop
    hdelete
  obtain ⟨listed, hlisted, -⟩ := Option.map_eq_some_iff.mp hr
  exact ⟨listed, hlisted⟩

-- the heartbeats are ten seconds apart whatever interval is configured
def halfMinute : Environment := ⟨30, 1000, 500, 2⟩

def started : System where
  now := 0
  brokers := (∅ : GoMap ThinBroker).set "b1" ⟨"http://b1", 0, 2000, some 0, 0⟩
  silentSince := (∅ : GoMap ℕ).delete "b1"
  heartbeats := [(⟨"b1", "http://b1", 0⟩, 0)]
  brokerList := ∅
  nextCheck := 2000
  lastCheck := 0

def onceHeard : List Label :=
  [.pass 2000, .checkBrokerList (fun _ => 0), .onTimer "b1" true]

theorem started_broker_listed :
    ∃ u, exec (step halfMinute) started (.onBrokerHeartbeat 0 :: onceHeard) = some u ∧
      ∃ listed, u.brokerList.get "b1" = some listed := by
  obtain ⟨u, hu⟩ : ∃ u, exec (step halfMinute) started (.onBrokerHeartbeat 0 :: onceHeard) =
      some u :=
    Option.isSome_iff_exists.mp (by rfl)
  have hbefore : exec (step halfMinute) .initial [.start "b1" "http://b1" 0 true] =
      some started := rfl
  exact ⟨u, hu, heard_broker_listed (by decide) (by decide) hbefore rfl rfl (by decide) hu
    (by simp [onceHeard]) (by simp [onceHeard])⟩

-- a broker that has stopped is off the list in time
theorem silent_broker_removed {ls : List Label} {c : ℕ} (hHI : 0 < env.heartbeatInterval)
    (hrun : exec (step env) .initial ls = some s) (hsilent : s.silentSince.get bid = some c)
    (hlate : c + env.delay + 6000 * env.heartbeatInterval + 2000 + env.lateness ≤ s.now) :
    s.brokerList.get bid = none := by
  have hreached := reached_of_exec hHI hrun
  have hremoved := hreached.sound.removed (i := bid) hsilent (by
    dsimp only [timing, System.monitor]
    omega)
  exact Option.map_eq_none_iff.mp hremoved

def everySecond : Environment := ⟨1, 0, 0, 0⟩

def brokerStopped : List Label :=
  [.start "b1" "http://b1" 0 true, .onBrokerHeartbeat 0, .stop "b1", .pass 2000,
    .checkBrokerList (fun _ => 0), .pass 2000, .checkBrokerList (fun _ => 0), .pass 2000,
    .checkBrokerList (fun _ => 0), .pass 2000]

theorem stopped_broker_removed :
    ∃ s, exec (step everySecond) .initial brokerStopped = some s ∧
      s.brokerList.get "b1" = none := by
  obtain ⟨s, hs⟩ : ∃ s, exec (step everySecond) .initial brokerStopped = some s :=
    Option.isSome_iff_exists.mp (by rfl)
  have hsilent : (exec (step everySecond) .initial brokerStopped).bind
      (fun s => s.silentSince.get "b1") = some 0 := by rfl
  have hnow : (exec (step everySecond) .initial brokerStopped).map System.now = some 8000 := by
    rfl
  rw [hs] at hsilent hnow
  exact ⟨s, hs, silent_broker_removed (by decide) hs hsilent (by
    rw [Option.some.inj hnow]
    decide)⟩

end FogFlow.Discovery.BrokerLiveness
