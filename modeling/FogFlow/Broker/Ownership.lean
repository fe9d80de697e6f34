import FogFlow.Broker.Store
import FogFlow.Broker.Transfer
import FogFlow.Discovery.Repository
import Mathlib.Logic.Function.Basic

namespace FogFlow.Broker.Ownership

open Ngsi Discovery

structure Config where
  externalIP : String
  internalIP : String
  brokerHostIP : String
  brokerHTTPPort : Int
  brokerHTTPSPort : Int
  httpsEnabled : Bool

def Config.url (c : Config) (hostip : String) : String :=
  (if c.httpsEnabled then "https" else "http") ++ "://" ++ hostip ++ ":" ++
    toString (if c.httpsEnabled then c.brokerHTTPSPort else c.brokerHTTPPort) ++ "/ngsi10"

def getBrokerURL (c : Config) : String :=
  c.url (if c.brokerHostIP ≠ "" then c.brokerHostIP
    else if c.externalIP ≠ "" then c.externalIP else c.internalIP)

def getExternalBrokerURL (c : Config) : String :=
  c.url (if c.externalIP ≠ "" then c.externalIP else c.internalIP)

def toUpperChar (c : Char) : Char :=
  if c = Char.ofNat 0x131 then 'I'
  else if c = Char.ofNat 0x17F then 'S'
  else c.toUpper

-- strings.ToUpper as far as a comparison with an ASCII text can see it
def toUpper (s : String) : String := String.ofList (s.toList.map toUpperChar)

structure UpdateContextRequest where
  contextElements : List PostedElement
  updateAction : String

def sendUpdateContext (codec : Codec) (elem : PostedElement) : UpdateContextRequest :=
  ⟨[elem.transferred codec], "UPDATE"⟩

def sendDeleteContext (codec : Codec) (eid : EntityId) : UpdateContextRequest :=
  ⟨[PostedElement.transferred codec ⟨"", ⟨eid, "", [], []⟩⟩], "DELETE"⟩

def updateContext2RemoteSite (codec : Codec) (updateAction : String) (ctxElem : PostedElement) :
    Option UpdateContextRequest :=
  if updateAction = "UPDATE" then some (sendUpdateContext codec ctxElem)
  else if updateAction = "DELETE" then some (sendDeleteContext codec ctxElem.element.entity)
  else none

-- every registration at discovery was made by one of the brokers, under its MyURL
structure Network (β : Type) where
  config : β → Config
  codec : Codec
  serverAt : String → Option β
  reached : ∀ b, serverAt (getBrokerURL (config b)) = some b
  ctxRegistrationList : CtxRegistrationList
  produced : ∀ eid registration, ctxRegistrationList.get eid = some registration →
    ∃ b, registration.providingApplication = getBrokerURL (config b)
  entities : β → Entities

variable {β : Type}

-- Start
def Network.myURL (net : Network β) (tb : β) : String := getBrokerURL (net.config tb)

def Network.profileURL (net : Network β) (tb : β) : String := getExternalBrokerURL (net.config tb)

def Network.getProviderURL (net : Network β) (eid : String) : String :=
  ((net.ctxRegistrationList.get eid).map EntityRegistration.providingApplication).getD ""

def queryOwnerOfEntity (net : Network β) (tb : β) (eid : String) : String :=
  if ((net.entities tb).get eid).isSome then net.profileURL tb
  else if net.getProviderURL eid = "" then net.profileURL tb
  else net.getProviderURL eid

variable [DecidableEq β]

def Network.updateContext2LocalSite (net : Network β) (tb : β) (ctxElem : PostedElement) :
    Network β :=
  { net with
    entities := Function.update net.entities tb
      (updateContextElement (net.entities tb) ctxElem.element) }

def Network.deleteEntity (net : Network β) (tb : β) (eid : String) : Network β :=
  { net with entities := Function.update net.entities tb ((net.entities tb).delete eid) }

-- the hops of the request for one element, and the brokers that applied it with the entity
structure Journey (β : Type) where
  forwarded : List (β × β)
  applied : List (β × String)

def Journey.stay : Journey β := ⟨[], []⟩

def applyLocally (net : Network β) (tb : β) (action : String) (ctxElem : PostedElement) :
    Network β × Journey β :=
  (if action = "DELETE" then net.deleteEntity tb ctxElem.eid
    else net.updateContext2LocalSite tb ctxElem, ⟨[], [(tb, ctxElem.eid)]⟩)

abbrev Served (β : Type) := Option (Network β × List (Journey β))

def Served.after (tb other : β) (served : Served β) : Option (Network β × Journey β) :=
  served.map (fun served => (served.1,
    ⟨(tb, other) :: served.2.flatMap Journey.forwarded, served.2.flatMap Journey.applied⟩))

def forward (serve : Network β → β → UpdateContextRequest → Served β) (net : Network β) (tb : β)
    (brokerURL updateAction : String) (ctxElem : PostedElement) :
    Option (Network β × Journey β) :=
  match updateContext2RemoteSite net.codec updateAction ctxElem, net.serverAt brokerURL with
  | some req, some other => (serve net other req).after tb other
  | _, _ => some (net, .stay)

-- the loop body of handleExternalUpdateContext
def handleExternalElement (serve : Network β → β → UpdateContextRequest → Served β) (tb : β)
    (updateAction : String) (net : Network β) (ctxElem : PostedElement) :
    Option (Network β × Journey β) :=
  let action := toUpper updateAction
  if action = "UPDATE" ∨ action = "APPEND" ∨ action = "DELETE" then
    let brokerURL := queryOwnerOfEntity net tb ctxElem.eid
    if brokerURL = net.profileURL tb then some (applyLocally net tb action ctxElem)
    else forward serve net tb brokerURL updateAction ctxElem
  else some (net, .stay)

def handleInternalElement (tb : β) (updateAction : String) (net : Network β)
    (ctxElem : PostedElement) : Option (Network β × Journey β) :=
  let action := toUpper updateAction
  if action = "UPDATE" ∨ action = "DELETE" then some (applyLocally net tb action ctxElem)
  else some (net, .stay)

def eachElement (handle : Network β → PostedElement → Option (Network β × Journey β)) :
    Network β → List PostedElement → Served β
  | net, [] => some (net, [])
  | net, ctxElem :: rest =>
      (handle net ctxElem).bind (fun handled =>
        (eachElement handle handled.1 rest).map (fun served => (served.1, handled.2 :: served.2)))

-- the fuel bounds how deep forwarded requests nest; a request sent by UpdateContext or
-- DeleteContext of the client does not carry the mark of a broker
def ngsiv1UpdateContext : Nat → Bool → Network β → β → UpdateContextRequest → Served β
  | 0, _, _, _, _ => none
  | fuel + 1, fromBroker, net, tb, req =>
      eachElement
        (if fromBroker then handleInternalElement tb req.updateAction
          else handleExternalElement (ngsiv1UpdateContext fuel false) tb req.updateAction)
        net req.contextElements

structure AppliedOnce (eid : String) (journey : Journey β) : Prop where
  once : ∃ b, journey.applied = [(b, eid)]
  oneForwarding : journey.forwarded.length ≤ 1
  notToItself : ∀ hop ∈ journey.forwarded, hop.1 ≠ hop.2

-- the handling of the element comes to an end, and has then applied it at one broker
def Settles (net : Network β) (tb : β) (updateAction : String) (ctxElem : PostedElement) : Prop :=
  ∃ fuel net' journey, handleExternalElement (ngsiv1UpdateContext fuel false) tb updateAction net
    ctxElem = some (net', journey) ∧ AppliedOnce ctxElem.eid journey

def IsUpdateOrDelete (updateAction : String) : Prop :=
  toUpper updateAction = "UPDATE" ∨ toUpper updateAction = "APPEND" ∨
    toUpper updateAction = "DELETE"

-- the broker holds the entity, or discovery has no provider of it or the one of its profile
def Recognised (net : Network β) (tb : β) (eid : String) : Prop :=
  ((net.entities tb).get eid).isSome ∨ net.getProviderURL eid = "" ∨
    net.getProviderURL eid = net.profileURL tb

omit [DecidableEq β] in
instance (net : Network β) (tb : β) (eid : String) : Decidable (Recognised net tb eid) :=
  inferInstanceAs (Decidable (_ ∨ _ ∨ _))

-- the spelling of the action and the form of the element survive a forwarding
def Forwardable (updateAction : String) (ctxElem : PostedElement) : Prop :=
  updateAction = "UPDATE" ∧ (ctxElem.isOrion = true → ctxElem.eid = "") ∨ updateAction = "DELETE"

def Owned (net : Network β) (tb : β) (updateAction : String) (ctxElem : PostedElement) : Prop :=
  Recognised net tb ctxElem.eid ∨ Forwardable updateAction ctxElem ∧
    ∃ other, other ≠ tb ∧ net.getProviderURL ctxElem.eid = net.myURL other ∧
      Recognised net other ctxElem.eid

variable {net net' : Network β} {tb other : β} {updateAction eid : String}
  {ctxElem : PostedElement} {journey : Journey β}
  {serve : Network β → β → UpdateContextRequest → Served β}

omit [DecidableEq β] in
theorem queryOwner_eq_iff : queryOwnerOfEntity net tb eid = net.profileURL tb ↔
    Recognised net tb eid := by
  unfold queryOwnerOfEntity Recognised
  split_ifs with hlocal hunknown
  · exact iff_of_true rfl (.inl hlocal)
  · exact iff_of_true rfl (.inr (.inl hunknown))
  · constructor
    · exact fun h => .inr (.inr h)
    · rintro (h | h | h)
      · exact absurd h hlocal
      · exact absurd h hunknown
      · exact h

omit [DecidableEq β] in
theorem queryOwner_of_not_recognised (h : ¬ Recognised net tb eid) :
    ∃ other, net.getProviderURL eid = net.myURL other ∧
      queryOwnerOfEntity net tb eid = net.myURL other := by
  simp only [Recognised, not_or] at h
  obtain ⟨hlocal, hknown, -⟩ := h
  obtain ⟨other, hother⟩ : ∃ other, net.getProviderURL eid = net.myURL other := by
    cases hget : net.ctxRegistrationList.get eid with
    | none => exact absurd (by simp [Network.getProviderURL, hget]) hknown
    | some registration =>
      obtain ⟨other, hother⟩ := net.produced eid registration hget
      exact ⟨other, by simp [Network.getProviderURL, hget, hother, Network.myURL]⟩
  refine ⟨other, hother, ?_⟩
  rw [queryOwnerOfEntity, if_neg hlocal, if_neg hknown, hother]

theorem handle_of_recognised (ha : IsUpdateOrDelete updateAction)
    (h : Recognised net tb ctxElem.eid) :
    handleExternalElement serve tb updateAction net ctxElem =
      some (applyLocally net tb (toUpper updateAction) ctxElem) := by
  unfold IsUpdateOrDelete at ha
  simp only [handleExternalElement]
  rw [if_pos ha, if_pos (queryOwner_eq_iff.mpr h)]

theorem handle_of_not_recognised (ha : IsUpdateOrDelete updateAction)
    (h : ¬ Recognised net tb ctxElem.eid) (hurl : net.getProviderURL ctxElem.eid = net.myURL other) :
    handleExternalElement serve tb updateAction net ctxElem =
      match updateContext2RemoteSite net.codec updateAction ctxElem with
      | some req => (serve net other req).after tb other
      | none => some (net, .stay) := by
  obtain ⟨b, hb, howner⟩ := queryOwner_of_not_recognised h
  rw [hurl] at hb
  unfold IsUpdateOrDelete at ha
  simp only [handleExternalElement]
  rw [if_pos ha, if_neg (fun hown => h (queryOwner_eq_iff.mp hown)), howner, ← hb, forward,
    Network.myURL, net.reached other]
  cases updateContext2RemoteSite net.codec updateAction ctxElem <;> rfl

-- an element that is not forwarded stays unapplied or is applied where it is
theorem handled_cases (ha : IsUpdateOrDelete updateAction)
    (h : handleExternalElement serve tb updateAction net ctxElem = some (net', journey)) :
    (Recognised net tb ctxElem.eid ∧ journey = ⟨[], [(tb, ctxElem.eid)]⟩) ∨
      journey = .stay ∨ journey.forwarded ≠ [] := by
  by_cases hown : Recognised net tb ctxElem.eid
  · rw [handle_of_recognised ha hown] at h
    obtain ⟨-, rfl⟩ := Prod.mk.inj (Option.some.inj h)
    exact .inl ⟨hown, rfl⟩
  · obtain ⟨other, hurl, -⟩ := queryOwner_of_not_recognised hown
    rw [handle_of_not_recognised ha hown hurl] at h
    split at h
    case h_1 req hreq =>
      obtain ⟨served, -, hserved⟩ := Option.map_eq_some_iff.mp h
      obtain ⟨-, rfl⟩ := Prod.mk.inj hserved
      exact .inr (.inr (List.cons_ne_nil _ _))
    case h_2 =>
      obtain ⟨-, rfl⟩ := Prod.mk.inj (Option.some.inj h)
      exact .inr (.inl rfl)

theorem serve_single (fuel : Nat) (net : Network β) (tb : β) (updateAction : String)
    (ctxElem : PostedElement) :
    ngsiv1UpdateContext (fuel + 1) false net tb ⟨[ctxElem], updateAction⟩ =
      (handleExternalElement (ngsiv1UpdateContext fuel false) tb updateAction net ctxElem).map
        (fun handled => (handled.1, [handled.2])) := by
  simp only [ngsiv1UpdateContext, eachElement, Bool.false_eq_true, if_false]
  cases handleExternalElement (ngsiv1UpdateContext fuel false) tb updateAction net ctxElem <;> rfl

theorem remoteSite_cases {codec : Codec} {req : UpdateContextRequest}
    (h : updateContext2RemoteSite codec updateAction ctxElem = some req) :
    ∃ sent, req = ⟨[sent], updateAction⟩ ∧ IsUpdateOrDelete updateAction ∧
      (sent.eid = ctxElem.eid → Forwardable updateAction ctxElem) := by
  unfold updateContext2RemoteSite at h
  split_ifs at h with hupdate hdelete
  · refine ⟨ctxElem.transferred codec, ?_, ?_, fun hsame => .inl ⟨hupdate, fun horion => ?_⟩⟩
    · rw [hupdate, ← Option.some.inj h, sendUpdateContext]
    · exact .inl (by rw [hupdate]; rfl)
    · rw [← hsame, PostedElement.transferred, if_pos horion, PostedElement.eid]
  · refine ⟨.transferred codec ⟨"", ⟨ctxElem.element.entity, "", [], []⟩⟩, ?_, ?_,
      fun _ => .inr hdelete⟩
    · rw [hdelete, ← Option.some.inj h, sendDeleteContext]
    · exact .inr (.inr (by rw [hdelete]; rfl))

theorem remoteSite_of_forwardable (codec : Codec) (h : Forwardable updateAction ctxElem) :
    ∃ sent, updateContext2RemoteSite codec updateAction ctxElem = some ⟨[sent], updateAction⟩ ∧
      sent.eid = ctxElem.eid ∧ Forwardable updateAction sent := by
  rcases h with ⟨rfl, hform⟩ | rfl
  · refine ⟨ctxElem.transferred codec, rfl, ?_⟩
    by_cases horion : ctxElem.isOrion = true
    · rw [PostedElement.transferred, if_pos horion]
      exact ⟨(hform horion).symm, .inl ⟨rfl, fun _ => rfl⟩⟩
    · rw [PostedElement.transferred, if_neg horion]
      exact ⟨rfl, .inl ⟨rfl, fun h => absurd h horion⟩⟩
  · exact ⟨_, rfl, rfl, .inr rfl⟩

theorem settles_of_recognised (ha : IsUpdateOrDelete updateAction)
    (h : Recognised net tb ctxElem.eid) : Settles net tb updateAction ctxElem :=
  ⟨0, _, _, handle_of_recognised ha h, ⟨tb, rfl⟩, Nat.zero_le 1, by simp⟩

theorem settles_of_forwarded (hform : Forwardable updateAction ctxElem)
    (h : ¬ Recognised net tb ctxElem.eid) (hne : other ≠ tb)
    (hurl : net.getProviderURL ctxElem.eid = net.myURL other)
    (hother : Recognised net other ctxElem.eid) : Settles net tb updateAction ctxElem := by
  obtain ⟨sent, hsent, heid, -⟩ := remoteSite_of_forwardable net.codec hform
  obtain ⟨-, -, ha, -⟩ := remoteSite_cases hsent
  rw [← heid] at hother
  refine ⟨1, (applyLocally net other (toUpper updateAction) sent).1,
    ⟨[(tb, other)], [(other, ctxElem.eid)]⟩, ?_, ⟨other, rfl⟩, le_refl 1, ?_⟩
  · rw [handle_of_not_recognised ha h hurl, hsent]
    dsimp only
    rw [serve_single, handle_of_recognised ha hother, ← heid]
    rfl
  · intro hop hmem
    obtain rfl := List.mem_singleton.mp hmem
    exact hne.symm

theorem owned_of_settles (ha : IsUpdateOrDelete updateAction)
    (h : Settles net tb updateAction ctxElem) : Owned net tb updateAction ctxElem := by
  by_cases hown : Recognised net tb ctxElem.eid
  · exact .inl hown
  obtain ⟨fuel, net', journey, hrun, ⟨b, hb⟩, hone, hself⟩ := h
  obtain ⟨other, hurl, -⟩ := queryOwner_of_not_recognised hown
  rw [handle_of_not_recognised ha hown hurl] at hrun
  split at hrun
  case h_2 =>
    obtain ⟨-, rfl⟩ := Prod.mk.inj (Option.some.inj hrun)
    cases hb
  case h_1 req hreq =>
    obtain ⟨sent, rfl, -, hform⟩ := remoteSite_cases hreq
    cases fuel with
    | zero => cases hrun
    | succ fuel =>
      rw [serve_single] at hrun
      obtain ⟨served, hserved, hjourney⟩ := Option.map_eq_some_iff.mp hrun
      obtain ⟨⟨last, tail⟩, hlast, rfl⟩ := Option.map_eq_some_iff.mp hserved
      obtain ⟨-, rfl⟩ := Prod.mk.inj hjourney
      simp only [List.flatMap_singleton, List.length_cons] at hb hone hself
      rcases handled_cases ha hlast with ⟨hother, rfl⟩ | rfl | hfar
      · obtain ⟨-, heid⟩ := Prod.mk.inj (List.cons.inj hb).1
        rw [heid] at hother
        exact .inr ⟨hform heid, other, (hself _ List.mem_cons_self).symm, hurl, hother⟩
      · cases hb
      · exact absurd (List.length_eq_zero_iff.mp (by omega)) hfar

-- a broker that finds itself at discovery but not in its profile posts to itself for ever
theorem forwards_to_itself (hown : ¬ Recognised net tb eid)
    (hurl : net.getProviderURL eid = net.myURL tb) (hform : Forwardable updateAction ctxElem)
    (heid : ctxElem.eid = eid) (fuel : Nat) :
    handleExternalElement (ngsiv1UpdateContext fuel false) tb updateAction net ctxElem = none := by
  induction fuel generalizing ctxElem with
  | zero =>
    obtain ⟨sent, hsent, -, -⟩ := remoteSite_of_forwardable net.codec hform
    obtain ⟨-, -, ha, -⟩ := remoteSite_cases hsent
    subst heid
    rw [handle_of_not_recognised ha hown hurl, hsent]
    rfl
  | succ fuel ih =>
    obtain ⟨sent, hsent, hsame, hsentForm⟩ := remoteSite_of_forwardable net.codec hform
    obtain ⟨-, -, ha, -⟩ := remoteSite_cases hsent
    have hrest := ih hsentForm (hsame.trans heid)
    subst heid
    rw [handle_of_not_recognised ha hown hurl, hsent]
    dsimp only
    rw [serve_single, hrest]
    rfl

def site (brokerHostIP internalIP : String) : Config :=
  ⟨"", internalIP, brokerHostIP, 8070, 0, false⟩

def announced (eid : String) (c : Config) : CtxRegistrationList :=
  (∅ : CtxRegistrationList).set eid ⟨eid, "", ∅, ∅, getBrokerURL c⟩

theorem announced_provider {c : Config} {registration : EntityRegistration} {k : String}
    (h : (announced eid c).get k = some registration) :
    registration.providingApplication = getBrokerURL c := by
  simp only [announced, GoMap.get_set, GoMap.get_empty] at h
  split_ifs at h
  rw [← Option.some.inj h]

def plainCodec : Codec := ⟨fun _ value => value, id⟩

-- a broker has registered itself, as registerMyself does, under a URL that is not in its profile
def hostedBroker : Network Unit where
  config := fun _ => site "broker" "10.0.0.1"
  codec := plainCodec
  serverAt := fun _ => some ()
  reached := fun _ => rfl
  ctxRegistrationList := announced "Broker.1" (site "broker" "10.0.0.1")
  produced := fun _ _ h => ⟨(), announced_provider h⟩
  entities := fun _ => ∅

def brokerElement : PostedElement := ⟨"", ⟨⟨"IoTBroker", false, "Broker.1"⟩, "", [], []⟩⟩

def sites (b : Bool) : Config := if b then site "" "10.0.0.2" else site "broker" "10.0.0.1"

def twoBrokers : Network Bool where
  config := sites
  codec := plainCodec
  serverAt := fun url => [false, true].find? (fun b => getBrokerURL (sites b) == url)
  reached := by decide
  ctxRegistrationList := announced "car1" (sites true)
  produced := fun _ _ h => ⟨true, announced_provider h⟩
  entities := fun b => if b then (∅ : Entities).set "car1" ⟨⟨"Car", false, "car1"⟩, "", [], []⟩ else ∅

def carElement : PostedElement := ⟨"", ⟨⟨"Car", false, "car1"⟩, "", [], []⟩⟩

end FogFlow.Broker.Ownership
