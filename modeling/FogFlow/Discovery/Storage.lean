import FogFlow.Discovery.Repository
import FogFlow.Library.ScheduledWrite

namespace FogFlow.Discovery.Storage

open Ngsi Execution ScheduledWrite

inductive RegistrationChange where
  | updateEntity (attrRank : String → Nat) (entity : EntityId) (registration : ContextRegistration)
  | deleteEntity (eid : String)

def RegistrationChange.apply : RegistrationChange → CtxRegistrationList → CtxRegistrationList
  | .updateEntity attrRank entity registration, list =>
      updateRegistrationInMemory attrRank list entity registration
  | .deleteEntity eid, list => list.delete eid

abbrev Subscriptions := GoMap SubscribeContextAvailabilityRequest

inductive SubscriptionChange where
  | subscribe (subID : String) (subReq : SubscribeContextAvailabilityRequest)
  | unsubscribe (subID : String)

def SubscriptionChange.apply : SubscriptionChange → Subscriptions → Subscriptions
  | .subscribe subID subReq, subscriptions => subscriptions.set subID subReq
  | .unsubscribe subID, subscriptions => subscriptions.delete subID

variable {M C F : Type}

-- the map holds what was read from the file, or a change has been made since
def Loaded (marshal : M → F) (m : M) (file : F) (labels : List (ScheduledWrite.Label C)) : Prop :=
  file = marshal m ∨ changesOf labels ≠ []

-- when all routines have returned, the file holds the map with every change of the run
def WritesAll (apply : C → M → M) (marshal : M → F) (m : M) (file : F) : Prop :=
  ∀ labels s, exec (ScheduledWrite.step apply marshal) (.init m file) labels = some s →
    s.routines = [] → Loaded marshal m file labels →
    s.file = marshal s.memory ∧ s.memory = (changesOf labels).foldl (fun m c => apply c m) m

theorem writesAll (apply : C → M → M) (marshal : M → F) (m : M) (file : F) :
    WritesAll apply marshal m file :=
  fun _ _ hrun hdone hloaded => ⟨file_of_returned hrun hdone hloaded, memory_exec hrun⟩

theorem files_hold_all_changes (marshalRegistrations : CtxRegistrationList → F)
    (marshalSubscriptions : Subscriptions → F) (ctxRegistrationList : CtxRegistrationList)
    (subscriptions : Subscriptions) (dbFile subscriptionsFile : F) :
    WritesAll RegistrationChange.apply marshalRegistrations ctxRegistrationList dbFile ∧
      WritesAll SubscriptionChange.apply marshalSubscriptions subscriptions subscriptionsFile :=
  ⟨writesAll _ _ _ _, writesAll _ _ _ _⟩

def carRegistration : RegistrationChange :=
  .updateEntity (fun _ => 0) ⟨"Car", false, "car1"⟩ ⟨[⟨"Car", false, "car1"⟩], [], [], "broker"⟩

-- the deletion finds the flag of the registration set and leaves the write to it
def skippingRun : List (ScheduledWrite.Label RegistrationChange) :=
  [.change carRegistration, .run 0, .run 0, .run 0, .change (.deleteEntity "car1"), .run 1,
    .run 0, .run 0, .run 0, .run 0, .run 0, .run 0, .run 0]

theorem skipped_deletion_written :
    ∃ s, exec (ScheduledWrite.step RegistrationChange.apply
        (fun list => list.entries.map Sigma.fst)) (.init ∅ []) skippingRun = some s ∧
      s.file = ([] : List String) := by
  refine ⟨_, rfl, ?_⟩
  exact ((files_hold_all_changes (fun list => list.entries.map Sigma.fst) (fun _ => []) ∅ ∅ []
    []).1 skippingRun _ rfl rfl (.inl rfl)).1

end FogFlow.Discovery.Storage
