import FogFlow.Discovery.Storage
import FogFlow.Library.ReadWriteLock

namespace FogFlow.Discovery.SubscriptionLock

open Ngsi Execution ReadWriteLock
open Storage (Subscriptions SubscriptionChange)

-- the database lock and the flag of a scheduled write
structure Disk where
  subscriptionsDbLock : Bool
  storeSubscriptionsOnFileScheduled : Bool
deriving DecidableEq, Repr

-- no payload stands for one that cannot be decoded, for which the handler returns at once
inductive Request where
  | subscribeContextAvailability (subID : String)
      (payload : Option SubscribeContextAvailabilityRequest)
  | updateLDContextAvailability (sid : String)
      (payload : Option SubscribeContextAvailabilityRequest)
  | unsubscribeContextAvailability (payload : Option String)
  | getSubscription (sid : String)
  | getSubscriptions
  | notifySubscribers
  | updateSubscriptionsOnDisk

abbrev Operation := Op Subscriptions Disk Request

def locked (change : SubscriptionChange) : List Operation :=
  [.lock, .write change.apply, .unlock]

def storeOnFile (storeOnDisk : Bool) : List Operation :=
  if storeOnDisk then [.go .updateSubscriptionsOnDisk] else []

def lockFile (disk : Disk) : Option Disk :=
  if disk.subscriptionsDbLock then none else some { disk with subscriptionsDbLock := true }

-- RLocker takes nothing; a deferred RUnlock also runs where the loop of notifySubscribers panics
def program (storeOnDisk : Bool) : Request → List Operation
  | .subscribeContextAvailability subID (some req) =>
      locked (.subscribe subID req) ++ storeOnFile storeOnDisk
  | .updateLDContextAvailability sid (some req) =>
      (if sid ≠ "" then locked (.subscribe sid req) else [.lock, .unlock]) ++
        storeOnFile storeOnDisk
  | .unsubscribeContextAvailability (some subID) =>
      locked (.unsubscribe subID) ++ storeOnFile storeOnDisk
  | .subscribeContextAvailability _ none | .updateLDContextAvailability _ none
  | .unsubscribeContextAvailability none => []
  | .getSubscription _ => [.read, .rUnlock]
  | .getSubscriptions | .notifySubscribers => [.rLock, .read, .rUnlock]
  | .updateSubscriptionsOnDisk =>
      [.returnIf Disk.storeSubscriptionsOnFileScheduled, .await lockFile,
        .await (fun disk => some { disk with storeSubscriptionsOnFileScheduled := true }), .rLock,
        .read, .await (fun disk => some { disk with storeSubscriptionsOnFileScheduled := false }),
        .await (fun disk => some { disk with subscriptionsDbLock := false }), .rUnlock]

def takesLock : Request → Bool
  | .getSubscription _ => false
  | _ => true

def start (subscriptions : Subscriptions) : Server Subscriptions Disk Request :=
  .init subscriptions ⟨false, false⟩

-- the step is not one of getSubscription
abbrev OthersOnly :
    Server Subscriptions Disk Request → ReadWriteLock.Label Request → Prop := Permitted takesLock

theorem program_disciplined (storeOnDisk : Bool) (request : Request)
    (h : takesLock request = true) :
    disciplined takesLock .free (program storeOnDisk request) = true := by
  cases request with
  | subscribeContextAvailability subID payload => cases payload <;> cases storeOnDisk <;> rfl
  | updateLDContextAvailability sid payload =>
    cases payload with
    | none => rfl
    | some req =>
      rw [program]
      split_ifs <;> cases storeOnDisk <;> rfl
  | unsubscribeContextAvailability payload => cases payload <;> cases storeOnDisk <;> rfl
  | getSubscription sid => cases h
  | _ => rfl

theorem program_of_getSubscription (storeOnDisk : Bool) (request : Request)
    (h : takesLock request = false) :
    ∃ op rest, program storeOnDisk request = op :: rest ∧ ¬ op.Proper .free := by
  cases request with
  | getSubscription sid => exact ⟨_, _, rfl, fun hproper => hproper rfl⟩
  | _ => cases h

theorem subscriptions_lock_kept_iff (storeOnDisk : Bool) (subscriptions : Subscriptions)
    {labels : List (ReadWriteLock.Label Request)} {s : Server Subscriptions Disk Request}
    (hrun : exec (ReadWriteLock.step (program storeOnDisk)) (start subscriptions) labels = some s) :
    (Meets (ReadWriteLock.step (program storeOnDisk)) Proper (start subscriptions) labels ∧
        Always (ReadWriteLock.step (program storeOnDisk)) FreeWhenIdle (start subscriptions) labels) ↔
      Meets (ReadWriteLock.step (program storeOnDisk)) OthersOnly (start subscriptions) labels :=
  lock_kept_iff (program_disciplined storeOnDisk) (program_of_getSubscription storeOnDisk) hrun

def carSubscription : SubscribeContextAvailabilityRequest :=
  ⟨[⟨"Car", true, ".*"⟩], [], "http://broker", "", .zero⟩

-- the subscriptions are listed while they are written to the file
def storedAndListed : List (ReadWriteLock.Label Request) :=
  [.start (.subscribeContextAvailability "sub1" (some carSubscription)), .run 0, .run 0, .run 0,
    .run 0, .run 1, .run 1, .run 1, .start .getSubscriptions, .run 2, .run 1, .run 1, .run 2, .run 2,
    .run 1, .run 1, .run 1]

theorem storedAndListed_keeps_lock :
    (exec (ReadWriteLock.step (program true)) (start ∅) storedAndListed).map (fun s =>
        s.routines.all (fun routine => routine.rest.isEmpty)) = some true ∧
      Meets (ReadWriteLock.step (program true)) Proper (start ∅) storedAndListed ∧
      Always (ReadWriteLock.step (program true)) FreeWhenIdle (start ∅) storedAndListed := by
  obtain ⟨s, hs⟩ : ∃ s,
      exec (ReadWriteLock.step (program true)) (start ∅) storedAndListed = some s := ⟨_, rfl⟩
  refine ⟨rfl, (subscriptions_lock_kept_iff true ∅ hs).mpr ?_⟩
  refine meets_of_check (c := fun s label => match label with
    | .start _ => true
    | .run i => (s.routines[i]?).all (fun routine => takesLock routine.request))
    (fun s label _ hc => ?_) (by rfl)
  cases label with
  | start request => trivial
  | run i =>
    intro routine hi
    simpa [hi] using hc

def lonelyRead : List (ReadWriteLock.Label Request) :=
  [.start (.getSubscription "sub1"), .run 0, .run 0]

-- the lock of the reader that lists the subscriptions is given back by somebody else
def overlappedReads : List (ReadWriteLock.Label Request) :=
  [.start .getSubscriptions, .run 0, .start (.getSubscription "sub1"), .run 1, .run 1,
    .start (.unsubscribeContextAvailability (some "sub1")), .run 2]

theorem getSubscription_breaks_lock :
    ((exec (ReadWriteLock.step (program false)) (start ∅) lonelyRead).map Server.fatal = some true ∧
        ¬ Meets (ReadWriteLock.step (program false)) Proper (start ∅) lonelyRead) ∧
      (exec (ReadWriteLock.step (program false)) (start ∅) overlappedReads).map (fun s =>
        (s.writing, s.routines.any (fun routine => routine.mode == .reading))) =
          some (true, true) := by
  refine ⟨⟨rfl, fun hmeets => ?_⟩, rfl⟩
  have hread := hmeets [.start (.getSubscription "sub1")] (.run 0) _ ⟨[.run 0], rfl⟩ rfl
  exact hread _ _ _ rfl rfl rfl

end FogFlow.Discovery.SubscriptionLock
