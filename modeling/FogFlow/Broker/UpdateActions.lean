import FogFlow.Broker.Ownership
import FogFlow.Library.Execution

namespace FogFlow.Broker.UpdateActions

open Ngsi Execution Ownership

variable {β : Type} [DecidableEq β]

def handler (fuel : Nat) (fromBroker : Bool) (tb : β) (updateAction : String) :
    Network β → PostedElement → Option (Network β × Journey β) :=
  if fromBroker then handleInternalElement tb updateAction
  else handleExternalElement (ngsiv1UpdateContext fuel false) tb updateAction

-- the elements of a request are handled one after the other
def elementStep (handle : Network β → PostedElement → Option (Network β × Journey β))
    (net : Network β) (ctxElem : PostedElement) : Option (Network β) :=
  (handle net ctxElem).map Prod.fst

-- applied at this broker, or at the one other broker that it was forwarded to
inductive AppliedByOwner (net : Network β) (tb : β) (updateAction : String)
    (ctxElem : PostedElement) : Network β × Journey β → Prop
  | here (hown : Recognised net tb ctxElem.eid) :
      AppliedByOwner net tb updateAction ctxElem
        ((applyLocally net tb (toUpper updateAction) ctxElem).1, ⟨[], [(tb, ctxElem.eid)]⟩)
  | there (other : β) (sent : PostedElement) (hne : other ≠ tb)
      (hown : Recognised net other ctxElem.eid) (heid : sent.eid = ctxElem.eid)
      (hsent : toUpper updateAction = "DELETE" ∨ sent = ctxElem.transferred net.codec) :
      AppliedByOwner net tb updateAction ctxElem
        ((applyLocally net other (toUpper updateAction) sent).1,
          ⟨[(tb, other)], [(other, ctxElem.eid)]⟩)

def HandledByOwner (fuel : Nat) (fromBroker : Bool) (tb : β) (updateAction : String)
    (net : Network β) (ctxElem : PostedElement) : Prop :=
  ∀ handled, handler fuel fromBroker tb updateAction net ctxElem = some handled →
    AppliedByOwner net tb updateAction ctxElem handled

-- a client's element finds its owner; one from a broker has to arrive at it
def ReachesOwner (fromBroker : Bool) (tb : β) (updateAction : String) (net : Network β)
    (ctxElem : PostedElement) : Prop :=
  if fromBroker then toUpper updateAction ≠ "APPEND" ∧ Recognised net tb ctxElem.eid
  else Owned net tb updateAction ctxElem

variable {net net' : Network β} {tb : β} {updateAction : String} {ctxElem : PostedElement}
  {handled : Network β × Journey β}

theorem applyLocally_journey (net : Network β) (tb : β) (action : String)
    (ctxElem : PostedElement) :
    applyLocally net tb action ctxElem =
      ((applyLocally net tb action ctxElem).1, ⟨[], [(tb, ctxElem.eid)]⟩) := rfl

theorem appliedOnce_of_appliedByOwner
    (h : AppliedByOwner net tb updateAction ctxElem handled) :
    AppliedOnce ctxElem.eid handled.2 := by
  cases h with
  | here hown => exact ⟨⟨tb, rfl⟩, Nat.zero_le 1, by simp⟩
  | there other sent hne hown heid hsent =>
    refine ⟨⟨other, rfl⟩, le_refl 1, ?_⟩
    intro hop hmem
    obtain rfl := List.mem_singleton.mp hmem
    exact hne.symm

theorem recognised_of_not_forwarded
    (h : AppliedByOwner net tb updateAction ctxElem handled) (hj : handled.2.forwarded = []) :
    Recognised net tb ctxElem.eid := by
  cases h with
  | here hown => exact hown
  | there other sent hne hown heid hsent => cases hj

theorem internal_iff (ha : IsUpdateOrDelete updateAction)
    (h : handleInternalElement tb updateAction net ctxElem = some handled) :
    AppliedByOwner net tb updateAction ctxElem handled ↔
      toUpper updateAction ≠ "APPEND" ∧ Recognised net tb ctxElem.eid := by
  simp only [handleInternalElement] at h
  by_cases happend : toUpper updateAction = "APPEND"
  · rw [happend, if_neg (by decide)] at h
    refine iff_of_false (fun happlied => ?_) (fun hc => hc.1 happend)
    obtain ⟨b, hb⟩ := (appliedOnce_of_appliedByOwner happlied).once
    rw [← Option.some.inj h] at hb
    cases hb
  · have hknown : toUpper updateAction = "UPDATE" ∨ toUpper updateAction = "DELETE" :=
      ha.imp_right (fun h => h.resolve_left happend)
    rw [if_pos hknown, applyLocally_journey] at h
    rw [← Option.some.inj h]
    constructor
    · exact fun happlied => ⟨happend, recognised_of_not_forwarded happlied rfl⟩
    · exact fun hc => .here hc.2

theorem sent_of_forwardable (codec : Codec) (h : Forwardable updateAction ctxElem) :
    ∃ sent, updateContext2RemoteSite codec updateAction ctxElem = some ⟨[sent], updateAction⟩ ∧
      sent.eid = ctxElem.eid ∧
      (toUpper updateAction = "DELETE" ∨ sent = ctxElem.transferred codec) := by
  obtain ⟨sent, hsent, heid, -⟩ := remoteSite_of_forwardable codec h
  refine ⟨sent, hsent, heid, ?_⟩
  rcases h with ⟨rfl, -⟩ | rfl
  · right
    exact (List.singleton_inj.mp (congrArg UpdateContextRequest.contextElements
      (Option.some.inj hsent))).symm
  · left
    rfl

theorem external_iff {fuel : Nat} (ha : IsUpdateOrDelete updateAction)
    (h : handleExternalElement (ngsiv1UpdateContext fuel false) tb updateAction net ctxElem =
      some handled) :
    AppliedByOwner net tb updateAction ctxElem handled ↔ Owned net tb updateAction ctxElem := by
  constructor
  · intro happlied
    exact owned_of_settles ha ⟨fuel, handled.1, handled.2, h, appliedOnce_of_appliedByOwner happlied⟩
  · intro howned
    by_cases hown : Recognised net tb ctxElem.eid
    · rw [handle_of_recognised ha hown, applyLocally_journey] at h
      rw [← Option.some.inj h]
      exact .here hown
    · obtain ⟨hform, other, hne, hurl, hother⟩ := howned.resolve_left hown
      obtain ⟨sent, hsent, heid, hform⟩ := sent_of_forwardable net.codec hform
      rw [handle_of_not_recognised ha hown hurl, hsent] at h
      dsimp only at h
      cases fuel with
      | zero => cases h
      | succ fuel =>
        rw [serve_single, handle_of_recognised ha (heid.symm ▸ hother), applyLocally_journey,
          heid] at h
        rw [← Option.some.inj h]
        exact .there other sent hne hother heid hform

theorem handledByOwner_iff {fuel : Nat} {fromBroker : Bool} (ha : IsUpdateOrDelete updateAction)
    (h : elementStep (handler fuel fromBroker tb updateAction) net ctxElem = some net') :
    HandledByOwner fuel fromBroker tb updateAction net ctxElem ↔
      ReachesOwner fromBroker tb updateAction net ctxElem := by
  obtain ⟨handled, hhandled, -⟩ := Option.map_eq_some_iff.mp h
  have hone : HandledByOwner fuel fromBroker tb updateAction net ctxElem ↔
      AppliedByOwner net tb updateAction ctxElem handled := by
    constructor
    · exact fun hall => hall handled hhandled
    · intro happlied other hother
      rw [← Option.some.inj (hhandled.symm.trans hother)]
      exact happlied
  rw [hone]
  cases fromBroker with
  | true => exact internal_iff ha hhandled
  | false => exact external_iff ha hhandled

omit [DecidableEq β] in
theorem exec_of_eachElement
    {handle : Network β → PostedElement → Option (Network β × Journey β)}
    {ctxElements : List PostedElement} {journeys : List (Journey β)}
    (h : eachElement handle net ctxElements = some (net', journeys)) :
    exec (elementStep handle) net ctxElements = some net' := by
  induction ctxElements generalizing net journeys with
  | nil =>
    obtain ⟨rfl, -⟩ := Prod.mk.inj (Option.some.inj h)
    rfl
  | cons ctxElem rest ih =>
    obtain ⟨handled, hhandled, hrest⟩ := Option.bind_eq_some_iff.mp h
    obtain ⟨served, hserved, heq⟩ := Option.map_eq_some_iff.mp hrest
    obtain ⟨rfl, -⟩ := Prod.mk.inj heq
    rw [exec, elementStep, hhandled]
    exact ih hserved

-- the switches of the internal and of the remote handling take what the external one takes
def SwitchesAgree (net : Network β) (tb : β) (updateAction : String) (ctxElem : PostedElement) :
    Prop :=
  handleInternalElement tb updateAction net ctxElem =
      some (applyLocally net tb (toUpper updateAction) ctxElem) ∧
    (updateContext2RemoteSite net.codec updateAction ctxElem).isSome

theorem switchesAgree_iff :
    SwitchesAgree net tb updateAction ctxElem ↔ updateAction = "UPDATE" ∨ updateAction = "DELETE" := by
  constructor
  · rintro ⟨-, hremote⟩
    unfold updateContext2RemoteSite at hremote
    split_ifs at hremote with hupdate hdelete
    · exact Or.inl hupdate
    · exact Or.inr hdelete
    · cases hremote
  · rintro (rfl | rfl)
    · exact ⟨rfl, rfl⟩
    · exact ⟨rfl, rfl⟩

end FogFlow.Broker.UpdateActions
