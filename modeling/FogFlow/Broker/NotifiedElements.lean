import FogFlow.Broker.Forwarding
import FogFlow.Library.LoopVariable

namespace FogFlow.Broker.NotifiedElements

open Ngsi Execution LoopVariable
open Network (isProsumerSubscription)
open Forwarding (subscriberList beTheSame notifySubscribers)

-- the decoder of the request sets no Originator, and nothing reads one
structure ContextElementResponse where
  contextElement : ContextElement
  statusCode : StatusCode

structure NotifyContextRequest where
  subscriptionId : String
  contextResponses : List ContextElementResponse

-- what a goroutine of notifySubscribers does next: it takes the id of the element, looks up the
-- index, and copies the element for one subscriber after the other
inductive Pending where
  | entityId
  | subscriberList (eid : String)
  | elements (sids : List String)
deriving DecidableEq, Repr

structure Progress where
  pending : Pending
  sent : List (ContextElement × String)

def Progress.start : Progress := ⟨.entityId, []⟩

def forwards (tb : ThinBroker) (correlator sid : String) : Bool :=
  !isProsumerSubscription correlator sid && !beTheSame tb correlator sid

-- one step with the broker as the goroutine then finds it; other requests change it meanwhile
def notifyStep (correlator : String) (ctxElem : ContextElement) (p : Progress) (tb : ThinBroker) :
    Option Progress :=
  match p.pending with
  | .entityId => some { p with pending := .subscriberList ctxElem.entity.id }
  | .subscriberList eid =>
      if tb.e2subLocked then none
      else some { p with
        pending := .elements (subscriberList tb eid ctxElem.getTypeWildCard) }
  | .elements [] => none
  | .elements (sid :: sids) =>
      some ⟨.elements sids,
        if forwards tb correlator sid then p.sent ++ [(ctxElem, sid)] else p.sent⟩

abbrev System := State ContextElement Progress ThinBroker

def correlatorOf (header : String) (req : NotifyContextRequest) : String :=
  if header = "" then req.subscriptionId else header

-- the answer is written before the loop starts
def ngsiv1NotifyContext (req : NotifyContextRequest) : System :=
  .initial (req.contextResponses.map ContextElementResponse.contextElement)

def systemStep (correlator : String) : System → Label ThinBroker → Option System :=
  step Progress.start (notifyStep correlator)

def Ended (p : Progress) : Prop := p.pending = .elements []

instance : DecidablePred Ended := fun p => inferInstanceAs (Decidable (p.pending = .elements []))

def Handled (s : System) : Prop := s.todo = [] ∧ ∀ r ∈ s.routines, Ended r.now

-- one goroutine for each element, which is where notifySubscribers takes it with this element;
-- in the end every subscriber has every element, none twice
structure EachNotified (correlator : String) (ctxElements : List ContextElement) (s : System) :
    Prop where
  separate : LoopVariable.Separate Progress.start (notifyStep correlator) ctxElements s
  goesOn : ¬ Handled s → ∀ tb, tb.e2subLocked = false → ∃ i t,
    (i = .next ∨ ∃ k, i = .run k tb) ∧ systemStep correlator s i = some t
  sent : Handled s → ∀ tb entities, (∀ r ∈ s.routines, ∀ tb' ∈ r.seen, tb' = tb) →
    s.routines.flatMap (fun r => r.now.sent) = ctxElements.flatMap (fun ctxElem =>
      notifySubscribers tb entities ctxElem correlator false)

-- what a goroutine reads of the loop variable next is what its own element has there
def SameRead (correlator : String) (tb : ThinBroker) (ctxElem own : ContextElement) :
    Pending → Prop
  | .entityId => ctxElem.entity.id = own.entity.id
  | .subscriberList eid =>
      subscriberList tb eid ctxElem.getTypeWildCard = subscriberList tb eid own.getTypeWildCard
  | .elements [] => True
  | .elements (sid :: _) => forwards tb correlator sid = true → ctxElem = own

def ReadInTime (correlator : String) (s : System) : Label ThinBroker → Prop
  | .next => True
  | .run k tb => ∀ ctxElem r, s.current = some ctxElem → s.routines[k]? = some r →
      SameRead correlator tb ctxElem r.own r.now.pending

variable {correlator : String} {ctxElem own : ContextElement} {p q : Progress} {tb : ThinBroker}

-- a locked index has no subscribers for either element, and the goroutine waits
theorem sameRead_iff (p : Progress) : SameRead correlator tb ctxElem own p.pending ↔
    notifyStep correlator ctxElem p tb = notifyStep correlator own p tb := by
  obtain ⟨pending, sent⟩ := p
  unfold SameRead notifyStep
  cases pending with
  | entityId => simp
  | subscriberList eid =>
    dsimp only
    split_ifs with hlock
    · simp [subscriberList, hlock]
    · simp
  | elements sids =>
    cases sids with
    | nil => simp
    | cons sid sids =>
      dsimp only
      cases forwards tb correlator sid <;> simp

theorem readInTime_iff (s : System) (i : Label ThinBroker) :
    ReadInTime correlator s i ↔ ReadsOwn (notifyStep correlator) s i := by
  cases i with
  | next => exact Iff.rfl
  | run k tb => exact forall₄_congr (fun _ r _ _ => sameRead_iff r.now)

theorem notifyStep_ended (ctxElem : ContextElement) (p : Progress) (tb : ThinBroker)
    (h : Ended p) : notifyStep correlator ctxElem p tb = none := by
  rw [notifyStep, h]

-- what one goroutine has sent and has still to send, with the broker as it is
def Due (correlator : String) (tb : ThinBroker) (entities : Entities) (ctxElem : ContextElement)
    (p : Progress) : Prop :=
  match p.pending with
  | .entityId => p.sent = []
  | .subscriberList eid => p.sent = [] ∧ eid = ctxElem.entity.id
  | .elements sids => p.sent ++ (sids.filter (forwards tb correlator)).map (ctxElem, ·) =
      notifySubscribers tb entities ctxElem correlator false

theorem notifySubscribers_eq (tb : ThinBroker) (entities : Entities) (ctxElem : ContextElement) :
    notifySubscribers tb entities ctxElem correlator false =
      ((subscriberList tb ctxElem.entity.id ctxElem.getTypeWildCard).filter
        (forwards tb correlator)).map (ctxElem, ·) := by
  rw [notifySubscribers, ← List.filterMap_eq_map]
  rfl

theorem Due.step {entities : Entities} (h : Due correlator tb entities ctxElem p)
    (hs : notifyStep correlator ctxElem p tb = some q) :
    Due correlator tb entities ctxElem q := by
  obtain ⟨pending, sent⟩ := p
  cases pending with
  | entityId =>
    obtain rfl := Option.some.inj hs
    exact ⟨h, rfl⟩
  | subscriberList eid =>
    obtain ⟨hsent, rfl⟩ := h
    unfold notifyStep at hs
    dsimp only at hs hsent
    split_ifs at hs
    obtain rfl := Option.some.inj hs
    rw [hsent]
    exact (notifySubscribers_eq tb entities ctxElem).symm
  | elements sids =>
    cases sids with
    | nil => cases hs
    | cons sid sids =>
      obtain rfl := Option.some.inj hs
      have hdue : sent ++ ((sid :: sids).filter (forwards tb correlator)).map (ctxElem, ·) =
        notifySubscribers tb entities ctxElem correlator false := h
      rw [Due, ← hdue, List.filter_cons]
      split_ifs
      · exact List.append_assoc sent [(ctxElem, sid)] _
      · rfl

theorem due_of_exec {seen : List ThinBroker} (entities : Entities)
    (h : exec (notifyStep correlator ctxElem) Progress.start seen = some p)
    (hseen : ∀ tb' ∈ seen, tb' = tb) : Due correlator tb entities ctxElem p := by
  refine exec_induction (motive := fun _ p => Due correlator tb entities ctxElem p) h rfl ?_
  intro js tb' p q hp _ hdue hs
  obtain rfl : tb' = tb := hseen tb' (hp.subset (List.mem_append_right _ List.mem_cons_self))
  exact hdue.step hs

theorem sent_of_separate {ctxElements : List ContextElement} {s : System} (entities : Entities)
    (h : LoopVariable.Separate Progress.start (notifyStep correlator) ctxElements s)
    (hhandled : Handled s)
    (hseen : ∀ r ∈ s.routines, ∀ tb' ∈ r.seen, tb' = tb) :
    s.routines.flatMap (fun r => r.now.sent) = ctxElements.flatMap (fun ctxElem =>
      notifySubscribers tb entities ctxElem correlator false) := by
  have hown : s.routines.map Routine.own = ctxElements := by
    have heach := h.each
    rwa [hhandled.1, List.append_nil] at heach
  rw [← hown, List.flatMap_map]
  refine List.flatMap_congr (fun r hr => ?_)
  have hdue : Due correlator tb entities r.own r.now :=
    due_of_exec entities (h.own r hr) (hseen r hr)
  have hended : r.now.pending = .elements [] := hhandled.2 r hr
  rw [Due, hended] at hdue
  simpa using hdue

-- a goroutine that has not ended takes a step, whatever the variable holds by then
theorem notifyStep_of_not_ended (ctxElem : ContextElement) (h : ¬ Ended p)
    (hlock : tb.e2subLocked = false) : ∃ q, notifyStep correlator ctxElem p tb = some q := by
  obtain ⟨pending, sent⟩ := p
  cases pending with
  | entityId => exact ⟨_, rfl⟩
  | subscriberList eid =>
    refine ⟨⟨.elements (subscriberList tb eid ctxElem.getTypeWildCard), sent⟩, ?_⟩
    simp [notifyStep, hlock]
  | elements sids =>
    cases sids with
    | nil => exact absurd rfl h
    | cons sid sids => exact ⟨_, rfl⟩

theorem goesOn_of_exec {ctxElements : List ContextElement} {is : List (Label ThinBroker)}
    {s : System} (hs : exec (systemStep correlator) (.initial ctxElements) is = some s)
    (hhandled : ¬ Handled s) (hlock : tb.e2subLocked = false) : ∃ i t,
      (i = .next ∨ ∃ k, i = .run k tb) ∧ systemStep correlator s i = some t := by
  cases htodo : s.todo with
  | cons a todo =>
    refine ⟨.next, ⟨todo, some a, s.routines ++ [⟨a, [], .start⟩]⟩, Or.inl rfl, ?_⟩
    rw [systemStep, step, htodo]
  | nil =>
    obtain ⟨r, hr, hended⟩ : ∃ r ∈ s.routines, ¬ Ended r.now := by
      by_contra! hall
      exact hhandled ⟨htodo, hall⟩
    obtain ⟨a, ha⟩ := current_of_exec hs hr
    obtain ⟨k, hk⟩ := List.mem_iff_getElem?.mp hr
    obtain ⟨q, hq⟩ := notifyStep_of_not_ended a hended hlock
    refine ⟨.run k tb, { s with routines := s.routines.set k ⟨r.own, r.seen ++ [tb], q⟩ },
      Or.inr ⟨k, rfl⟩, ?_⟩
    rw [systemStep, step, ha, Option.bind_some, hk, Option.bind_some, advance, hq]
    rfl

theorem always_eachNotified_iff {ctxElements : List ContextElement}
    {is : List (Label ThinBroker)} :
    Always (systemStep correlator) (EachNotified correlator ctxElements) (.initial ctxElements)
        is ↔
      Always (systemStep correlator)
        (LoopVariable.Separate Progress.start (notifyStep correlator) ctxElements)
        (.initial ctxElements) is := by
  constructor
  · exact fun h js s hp hs => (h js s hp hs).separate
  · intro h js s hp hs
    have hsep := h js s hp hs
    exact ⟨hsep, fun hhandled _ hlock => goesOn_of_exec hs hhandled hlock,
      fun hhandled _ entities hseen => sent_of_separate entities hsep hhandled hseen⟩

theorem each_element_notified_iff (header : String) (req : NotifyContextRequest)
    {is : List (Label ThinBroker)} {u : System}
    (hrun : exec (systemStep (correlatorOf header req)) (ngsiv1NotifyContext req) is = some u) :
    Always (systemStep (correlatorOf header req))
        (EachNotified (correlatorOf header req)
          (req.contextResponses.map ContextElementResponse.contextElement))
        (ngsiv1NotifyContext req) is ↔
      Meets (systemStep (correlatorOf header req)) (ReadInTime (correlatorOf header req))
        (ngsiv1NotifyContext req) is := by
  rw [ngsiv1NotifyContext, always_eachNotified_iff]
  simp only [Meets, readInTime_iff]
  exact separate_iff hrun

theorem notified_of_waits {ctxElements : List ContextElement} {is : List (Label ThinBroker)}
    (hm : Meets (systemStep correlator) (Waits Ended) (.initial ctxElements) is) :
    Always (systemStep correlator) (EachNotified correlator ctxElements) (.initial ctxElements)
      is :=
  always_eachNotified_iff.mpr (separate_of_waits (fun ctxElem p tb => notifyStep_ended ctxElem p tb)
    hm)

-- the loop variable of a request with a single element is never overwritten
theorem notified_of_singleton (ctxElem : ContextElement) {is : List (Label ThinBroker)}
    {u : System} (hrun : exec (systemStep correlator) (.initial [ctxElem]) is = some u) :
    Always (systemStep correlator) (EachNotified correlator [ctxElem]) (.initial [ctxElem]) is := by
  refine notified_of_waits (fun js i s hp hs => ?_)
  cases i with
  | run k tb => trivial
  | next =>
    intro r hr
    obtain ⟨t, ht⟩ := exec_of_shorter hrun hp
    obtain ⟨s', hs', hnext⟩ := exec_concat.mp ht
    obtain rfl := Option.some.inj (hs.symm.trans hs')
    obtain ⟨a, todo, htodo, -⟩ := step_next hnext
    have hlength := congrArg List.length (each_of_exec hs)
    have hpos := List.length_pos_of_mem hr
    simp only [htodo, List.length_append, List.length_map, List.length_cons, List.length_nil]
      at hlength
    omega

def atOwn (s : System) : Label ThinBroker → Bool
  | .next => true
  | .run k _ => (s.routines[k]?).all (fun r => s.current == some r.own)

theorem readInTime_of_atOwn (s : System) (i : Label ThinBroker) (h : atOwn s i = true) :
    ReadInTime correlator s i := by
  cases i with
  | next => trivial
  | run k tb =>
    intro ctxElem r hcurrent hr
    rw [atOwn, hr, hcurrent, Option.all_some, beq_iff_eq] at h
    rw [Option.some.inj h]
    exact (sameRead_iff r.now).mpr rfl

def car1 : ContextElement := ⟨⟨"Car", false, "car1"⟩, "", [], []⟩

def car2 : ContextElement := ⟨⟨"Car", false, "car2"⟩, "", [], []⟩

def twoCars : NotifyContextRequest := ⟨"sub1", [⟨car1, ⟨200, "OK"⟩⟩, ⟨car2, ⟨200, "OK"⟩⟩]⟩

-- one subscription to each car
def subscribed : ThinBroker :=
  ⟨∅, ((∅ : GoMap (List String)).set "car1" ["sub2"]).set "car2" ["sub3"], SubLinks.empty, false⟩

def routineRun (k : Nat) : List (Label ThinBroker) := List.replicate 3 (.run k subscribed)

def inTime : List (Label ThinBroker) := .next :: routineRun 0 ++ .next :: routineRun 1

def late : List (Label ThinBroker) := [.next, .next] ++ routineRun 0 ++ routineRun 1

theorem inTime_notifies :
    (exec (systemStep "sub1") (ngsiv1NotifyContext twoCars) inTime).isSome = true ∧
      Always (systemStep "sub1") (EachNotified "sub1" [car1, car2]) (ngsiv1NotifyContext twoCars)
        inTime := by
  refine ⟨by decide, (each_element_notified_iff "" twoCars rfl).mpr
    (meets_of_check (c := atOwn) (fun s i _ => readInTime_of_atOwn s i) (by decide))⟩

-- the subscriber of car1 has nothing, and the subscriber of car2 has its element twice
def notifiedLast : System :=
  ⟨[], some car2, [car1, car2].map (fun ctxElem =>
    ⟨ctxElem, List.replicate 3 subscribed, ⟨.elements [], [(car2, "sub3")]⟩⟩)⟩

theorem late_notifies_last :
    ¬ ∀ is u, exec (systemStep "sub1") (ngsiv1NotifyContext twoCars) is = some u →
      EachNotified "sub1" [car1, car2] u := by
  intro h
  have hsent := (h late notifiedLast rfl).sent ⟨rfl, by decide⟩ subscribed ∅ (fun r hr tb htb => by
    obtain ⟨ctxElem, -, rfl⟩ := List.mem_map.mp hr
    exact List.eq_of_mem_replicate htb)
  exact absurd (congrArg (List.map Prod.snd) hsent) (by decide)

end FogFlow.Broker.NotifiedElements
