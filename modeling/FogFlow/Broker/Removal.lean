import FogFlow.Broker.Notification

namespace FogFlow.Broker.Removal

open Ngsi Handler Execution Availability

-- the maps of the broker and the calls in progress for its availability subscriptions
structure System where
  subscriptions : GoMap SubscribeContextRequest
  entityId2Subcriptions : GoMap (List String)
  e2subLocked : Bool
  calls : Availability.System

def System.initial : System := ⟨∅, ∅, false, .initial⟩

def System.broker (s : System) : ThinBroker :=
  ⟨s.subscriptions, s.entityId2Subcriptions, s.calls.links, s.e2subLocked⟩

def System.put (tb : ThinBroker) (calls : Availability.System) : System :=
  ⟨tb.subscriptions, tb.entityId2Subcriptions, tb.e2subLocked, { calls with links := tb.subLinks }⟩

inductive Label where
  | subscribe (subID : String) (subReq : SubscribeContextRequest)
  | unsubscribe (fromBroker : Bool) (subID : String)
  | delete (sid : String)
  | availability (label : Availability.Label) (answers : Nat → Option String)

-- the message that this step passes to handleNGSI9Notify, with its main subscription
def passed (calls : Availability.System) : Availability.Label → Option Call
  | .forward subscriptionId =>
      (calls.forwarding.find? (fun call => call.1 == subscriptionId)).map Prod.snd
  | .handle call => some call
  | _ => none

def runHandler (cfg : Config) (answers : Nat → Option String) (calls : Availability.System)
    (label : Availability.Label) : Handler ThinBroker :=
  match passed calls label, label with
  | some call, _ => handleNGSI9Notify cfg answers call.1 call.2 false
  | none, .arrive req =>
      if req.isProsumerRegistration then handleProsumerRegistration cfg answers req else skip
  | none, _ => skip

-- a call of SubscribeContextAvailability whose handler has not ended never clears its cache entry
def withoutEnded (before after : Availability.System) : Exit → Availability.System
  | .done => after
  | _ => { after with clearing := before.clearing }

def subscribeStep (s : System) (subID : String) (subReq : SubscribeContextRequest) : System :=
  let o := subscribeContext subReq subID s.broker
  if subReq.subscriber.isInternal then .put o.state s.calls
  else .put o.state { s.calls with requested := subID :: s.calls.requested }

def availabilityStep (cfg : Config) (s : System) (label : Availability.Label)
    (answers : Nat → Option String) : Option System :=
  match label with
  | .request _ => none
  | _ =>
      (Availability.step s.calls label).map (fun calls =>
        let o := runHandler cfg answers s.calls label { s.broker with subLinks := calls.links }
        .put o.state (withoutEnded s.calls calls o.exit))

def step (cfg : Config) (s : System) : Label → Option System
  | .subscribe subID subReq => some (subscribeStep s subID subReq)
  | .unsubscribe fromBroker subID =>
      some (.put (unsubscribeContext fromBroker subID s.broker).state s.calls)
  | .delete sid => some (.put (deleteSubscription sid s.broker).state s.calls)
  | .availability label answers => availabilityStep cfg s label answers

def Safe (cfg : Config) (s : System) : Label → Prop
  | .availability label answers => ∀ call, passed s.calls label = some call →
      s.subscriptions.get call.1 = none →
        Quiet s.broker (handleNGSI9Notify cfg answers call.1 call.2 false s.broker)
  | _ => True

def Careful (cfg : Config) (s : System) : Label → Prop
  | .availability label _ => ∀ call, passed s.calls label = some call →
      s.subscriptions.get call.1 = none →
        Harmless cfg s.entityId2Subcriptions call.1 call.2
  | _ => True

theorem safe_iff_careful {cfg : Config} {s : System} (label : Label) (h : s.e2subLocked = false) :
    Safe cfg s label ↔ Careful cfg s label := by
  cases label with
  | availability label answers =>
    refine forall_congr' (fun call => forall_congr' (fun _ => forall_congr' (fun hgone => ?_)))
    have hlocked : Unlocked s.broker := h
    exact quiet_iff_harmless hgone hlocked
  | subscribe _ _ | unsubscribe _ _ | delete _ => exact Iff.rfl

theorem links_of_passed {calls after : Availability.System} {label : Availability.Label}
    {call : Call} (hp : passed calls label = some call)
    (hs : Availability.step calls label = some after) : after.links = calls.links := by
  cases label with
  | forward k | handle k =>
    obtain ⟨taken, -, rfl⟩ := Option.map_eq_some_iff.mp hs
    rfl
  | _ => cases hp

theorem unlocked_runHandler {cfg : Config} {answers : Nat → Option String} {s : System}
    {label : Availability.Label} {after : Availability.System} (h : s.e2subLocked = false)
    (hc : Careful cfg s (.availability label answers))
    (hs : Availability.step s.calls label = some after) :
    Unlocked (runHandler cfg answers s.calls label
      { s.broker with subLinks := after.links }).state := by
  unfold runHandler
  cases hp : passed s.calls label with
  | some call =>
    have hsame : { s.broker with subLinks := after.links } = s.broker := by
      rw [links_of_passed hp hs]
      rfl
    rw [hsame]
    cases hsub : s.subscriptions.get call.1 with
    | none =>
      have hlocked : Unlocked s.broker := h
      have hquiet : Quiet s.broker (handleNGSI9Notify cfg answers call.1 call.2 false s.broker) :=
        (quiet_iff_harmless hsub hlocked).mpr (hc call hp hsub)
      exact hquiet.unlocked
    | some request => exact unlocked_handleNGSI9Notify (Or.inr (by simp [System.broker, hsub])) h
  | none =>
    cases label with
    | arrive req =>
      dsimp only
      split_ifs
      · exact unlocked_handleProsumerRegistration h
      · exact h
    | _ => exact h

theorem availability_of_step {cfg : Config} {s t : System} {label : Availability.Label}
    {answers : Nat → Option String} (hs : step cfg s (.availability label answers) = some t) :
    ∃ after, Availability.step s.calls label = some after ∧
      t = .put (runHandler cfg answers s.calls label
        { s.broker with subLinks := after.links }).state
        (withoutEnded s.calls after (runHandler cfg answers s.calls label
          { s.broker with subLinks := after.links }).exit) := by
  simp only [step, availabilityStep] at hs
  split at hs
  · cases hs
  · obtain ⟨after, hafter, rfl⟩ := Option.map_eq_some_iff.mp hs
    exact ⟨after, hafter, rfl⟩

theorem unlocked_step {cfg : Config} {s t : System} {label : Label} (h : s.e2subLocked = false)
    (hc : Careful cfg s label) (hs : step cfg s label = some t) : t.e2subLocked = false := by
  cases label with
  | subscribe subID subReq =>
    obtain rfl := Option.some.inj hs
    have hu := (unlocked_subscribeContext subReq subID s.broker h).2
    unfold subscribeStep
    dsimp only
    split_ifs <;> exact hu
  | unsubscribe fromBroker subID =>
    obtain rfl := Option.some.inj hs
    exact h
  | delete sid =>
    obtain rfl := Option.some.inj hs
    unfold deleteSubscription
    split_ifs <;> exact h
  | availability label answers =>
    obtain ⟨after, hafter, rfl⟩ := availability_of_step hs
    exact unlocked_runHandler h hc hafter

theorem removed_notifications_safe_iff {cfg : Config} {labels : List Label} {s : System}
    (hrun : exec (step cfg) .initial labels = some s) :
    Meets (step cfg) (Safe cfg) .initial labels ↔ Meets (step cfg) (Careful cfg) .initial labels :=
  meets_congr (P := fun s : System => s.e2subLocked = false) hrun rfl
    (fun _ label _ h _ => safe_iff_careful label h) (fun _ _ _ h hc hs => unlocked_step h hc hs)

def AlwaysSafe (cfg : Config) : Prop :=
  ∀ labels s, exec (step cfg) .initial labels = some s → Meets (step cfg) (Safe cfg) .initial labels

def exampleConfig : Config := ⟨"http://broker", false⟩

def byType (type : String) : SubscribeContextRequest :=
  { SubscribeContextRequest.zero with entities := [⟨type, false, ""⟩] }

def ownNotify (code : Int) : NotifyContextAvailabilityRequest :=
  ⟨"availability", [⟨⟨[⟨"Car", false, "car1"⟩], [], [], "http://broker"⟩, ⟨200, "OK"⟩⟩],
    ⟨code, "OK"⟩⟩

def noAnswers : Nat → Option String := fun _ => none

-- the client leaves while discovery still reports cars for it
def afterRemoval (code : Int) : List Label :=
  [.subscribe "main" (byType "Car"), .availability (.answer "main" "availability") noAnswers,
    .availability (.record "availability") noAnswers, .unsubscribe false "main",
    .availability (.arrive (ownNotify code)) noAnswers]

def lateHandling (code : Int) : Label :=
  .availability (.handle ("main", ownNotify code)) noAnswers

theorem late_update_panics : ¬ AlwaysSafe exampleConfig := by
  intro h
  have hrun : ∃ s, exec (step exampleConfig) .initial (afterRemoval 301) = some s ∧
      s.subscriptions.get "main" = none ∧
      (handleNGSI9Notify exampleConfig noAnswers "main" (ownNotify 301) false s.broker).exit =
        .panicked ∧
      ∃ t, exec (step exampleConfig) .initial (afterRemoval 301 ++ [lateHandling 301]) = some t ∧
        t.e2subLocked = true := ⟨_, rfl, rfl, rfl, _, rfl, rfl⟩
  obtain ⟨s, hs, hgone, hexit, t, ht, -⟩ := hrun
  have hquiet := h _ t ht _ _ s (List.prefix_refl _) hs ("main", ownNotify 301) rfl hgone
  rw [hquiet.exit] at hexit
  cases hexit

theorem late_deletion_safe :
    Meets (step exampleConfig) (Safe exampleConfig) .initial
      (afterRemoval 410 ++ [lateHandling 410]) := by
  have hrun : ∃ s t, exec (step exampleConfig) .initial (afterRemoval 410) = some s ∧
      exec (step exampleConfig) .initial (afterRemoval 410 ++ [lateHandling 410]) = some t ∧
      s.entityId2Subcriptions = ∅ := ⟨_, _, rfl, rfl, rfl⟩
  obtain ⟨s, t, hs, ht, hindex⟩ := hrun
  refine (removed_notifications_safe_iff ht).mpr ((meets_concat hs).mpr ⟨?_, ?_⟩)
  · intro js label r hp _
    have hmem : label ∈ afterRemoval 410 := hp.subset (by simp)
    simp only [afterRemoval, List.mem_cons, List.not_mem_nil, or_false] at hmem
    rcases hmem with rfl | rfl | rfl | rfl | rfl <;> simp [Careful, passed]
  · intro call hcall _
    obtain rfl : ("main", ownNotify 410) = call := Option.some.inj hcall
    rw [hindex]
    simp [Harmless, exampleConfig, ownNotify, actionOf]

end FogFlow.Broker.Removal
