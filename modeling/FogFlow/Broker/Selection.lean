import FogFlow.Broker.TypeIndex
import FogFlow.Discovery.Filters

namespace FogFlow.Broker.Selection

open Ngsi Execution Processing TypeIndex Discovery

-- the log of one subscription says that the entity is provided and has not been withdrawn since
def Present (log : List Naming) (n : Naming) : Prop :=
  ∃ before after, log = before ++ n :: after ∧ n.action ≠ .delete ∧
    ∀ d ∈ after, d.action = .delete → d.entity.id ≠ n.entity.id

def accepted (matchString : MatchString) (request : SubscribeContextRequest) (entity : EntityId) :
    Bool :=
  request.entities.any (matchEntityId matchString entity)

-- the entities of this broker that discovery reports for the subscription
def Hosted (cfg : Config) (matchString : MatchString) (log : List Naming)
    (request : SubscribeContextRequest) (n : Naming) : Prop :=
  Present log n ∧ n.provider = cfg.myURL ∧ accepted matchString request n.entity = true

def Selected (cfg : Config) (matchString : MatchString) (s : System) : Prop :=
  ∀ main request, s.request main = some request → ∀ n,
    Hosted cfg matchString (logOf s.log main) request n → ∀ ctxElem : ContextElement,
      ctxElem.entity.id = n.entity.id → ctxElem.getTypeWildCard = n.entity.getTypeWildCard →
        main ∈ Forwarding.subscriberList s.broker ctxElem.entity.id ctxElem.getTypeWildCard

-- what selects the entities of a by-type subscription
def ListedFor (cfg : Config) (matchString : MatchString) (log : List Naming)
    (request : SubscribeContextRequest) : Prop :=
  request.isSimplyByType = true → ∀ n, Hosted cfg matchString log request n →
    listed request n.entity.getTypeWildCard log = true ∨ listed request n.entity.id log = true

def ExactTypes (cfg : Config) (matchString : MatchString) (s : System) : Label → Prop
  | .subscribe _ _ => True
  | .notify main req _ => ∀ request, s.request main = some request →
      ListedFor cfg matchString (logOf (s.log ++ namingsOf main req) main) request

section Listed

variable {request : SubscribeContextRequest} {k : String} {log : List Naming} {n : Naming}

theorem foldl_record_of_kept {after : List Naming}
    (h : ∀ d ∈ after, d.action = .delete → d.entity.id ≠ k) :
    after.foldl (record request k) true = true := by
  induction after with
  | nil => rfl
  | cons d after ih =>
    have hd : record request k true d = true := by
      unfold record
      split_ifs with hact
      · simpa using h d List.mem_cons_self hact
      · rfl
    rw [List.foldl_cons, hd]
    exact ih (fun e he => h e (List.mem_cons_of_mem _ he))

theorem listed_of_kept {before after : List Naming} (hlog : log = before ++ n :: after)
    (hact : n.action ≠ .delete) (hadds : adds request n.entity k = true)
    (h : ∀ d ∈ after, d.action = .delete → d.entity.id ≠ k) : listed request k log = true := by
  have hn : record request k (before.foldl (record request k) false) n = true := by
    rw [record, if_neg hact, hadds, Bool.or_true]
  rw [hlog, listed, List.foldl_append, List.foldl_cons, hn]
  exact foldl_record_of_kept h

theorem listed_eq_false (h : ∀ n ∈ log, adds request n.entity k = false) :
    listed request k log = false := by
  unfold listed
  induction log with
  | nil => rfl
  | cons n log ih =>
    have hn : record request k false n = false := by
      simp [record, h n List.mem_cons_self]
    rw [List.foldl_cons, hn]
    exact ih (fun d hd => h d (List.mem_cons_of_mem _ hd))

end Listed

section State

variable {cfg : Config} {matchString : MatchString} {main m : String}
  {request : SubscribeContextRequest} {s t : System} {n : Naming} {labels : List Label}
  {label : Label}

theorem mem_subscriberList (h : Unlocked s.broker) (eid wildCard : String) :
    main ∈ Forwarding.subscriberList s.broker eid wildCard ↔
      main ∈ s.broker.entityId2Subcriptions.slice eid ∨
        main ∈ s.broker.entityId2Subcriptions.slice wildCard := by
  have hl : s.broker.e2subLocked = false := h
  rw [Forwarding.subscriberList, hl, if_neg Bool.false_ne_true, List.mem_append]

theorem mem_slice_iff (h : Indexed s main request) (hsimple : request.isSimplyByType = true)
    (k : String) : main ∈ s.broker.entityId2Subcriptions.slice k ↔
      listed request k (logOf s.log main) = true := by
  rw [← List.count_pos_iff, h.byType hsimple]
  cases listed request k (logOf s.log main) <;> simp

theorem listed_of_present {log : List Naming} (hsimple : request.isSimplyByType = false)
    (h : Present log n) : listed request n.entity.id log = true := by
  obtain ⟨before, after, hlog, hact, hafter⟩ := h
  exact listed_of_kept hlog hact (by simp [adds, hsimple]) hafter

theorem selectedFor_iff (hunlocked : Unlocked s.broker) (h : Indexed s main request) :
    (∀ n, Hosted cfg matchString (logOf s.log main) request n → ∀ ctxElem : ContextElement,
      ctxElem.entity.id = n.entity.id → ctxElem.getTypeWildCard = n.entity.getTypeWildCard →
        main ∈ Forwarding.subscriberList s.broker ctxElem.entity.id ctxElem.getTypeWildCard) ↔
      ListedFor cfg matchString (logOf s.log main) request := by
  constructor
  · intro hall hsimple n hn
    have hmem := hall n hn ⟨n.entity, "", [], []⟩ rfl rfl
    rw [mem_subscriberList hunlocked, mem_slice_iff h hsimple, mem_slice_iff h hsimple] at hmem
    exact hmem.symm
  · intro hall n hn ctxElem hid htype
    rw [hid, htype, mem_subscriberList hunlocked]
    cases hsimple : request.isSimplyByType with
    | true =>
      rw [mem_slice_iff h hsimple, mem_slice_iff h hsimple]
      exact (hall hsimple n hn).symm
    | false => exact Or.inl (h.byId hsimple _ (listed_of_present hsimple hn.1))

theorem selected_iff (hrun : exec (step cfg) .initial labels = some s) :
    Selected cfg matchString s ↔ ∀ main request, s.request main = some request →
      ListedFor cfg matchString (logOf s.log main) request := by
  refine forall_congr' (fun main => forall_congr' (fun request => forall_congr' (fun hget => ?_)))
  by_cases hnil : logOf s.log main = []
  · have hnone : ∀ n, ¬ Hosted cfg matchString (logOf s.log main) request n := by
      rintro n ⟨⟨before, after, hlog, -⟩, -⟩
      rw [hnil] at hlog
      simp at hlog
    exact iff_of_true (fun n hn => absurd hn (hnone n)) (fun _ n hn => absurd hn (hnone n))
  · obtain ⟨n, hn⟩ := List.exists_mem_of_ne_nil _ hnil
    obtain ⟨hmem, hmain⟩ := List.mem_filter.mp hn
    obtain ⟨q, hq, hexternal⟩ := external_of_log hrun n hmem
    rw [beq_iff_eq.mp hmain, hget] at hq
    obtain rfl := Option.some.inj hq
    exact selectedFor_iff (known_exec hrun).unlocked (indexed_run hrun hget hexternal)

theorem exactTypes_iff (hrun : exec (step cfg) .initial labels = some s)
    (hselected : Selected cfg matchString s) (hs : step cfg s label = some t) :
    ExactTypes cfg matchString s label ↔ Selected cfg matchString t := by
  have hknown := known_exec hrun
  rw [selected_iff (exec_concat.mpr ⟨s, hrun, hs⟩)]
  rw [selected_iff hrun] at hselected
  have hkeep : ∀ m q, t.request m = some q → logOf t.log m = logOf s.log m →
      ListedFor cfg matchString (logOf t.log m) q := by
    intro m q hq hlog
    rw [hlog]
    cases hm : s.request m with
    | some q' =>
      rw [request_of_step hknown hs (by simp [hm]), hm] at hq
      obtain rfl := Option.some.inj hq
      exact hselected m q' hm
    | none =>
      rw [unknown_log hknown hm]
      rintro _ n ⟨⟨before, after, hlog, -⟩, -⟩
      simp at hlog
  cases label with
  | subscribe subID subReq =>
    refine iff_of_true trivial (fun m q hq => hkeep m q hq ?_)
    obtain ⟨-, rfl⟩ := subscribed_of_step hknown hs
    rfl
  | notify main req sids =>
    obtain ⟨request, hn⟩ := notified_of_step hknown hs
    have hget : t.request main = some request :=
      (request_of_step hknown hs (by simp [hn.behind])).trans hn.behind
    simp only [ExactTypes, hn.behind, Option.some.injEq, forall_eq', ← hn.log]
    constructor
    · intro hmain m q hq
      by_cases hm : m = main
      · subst hm
        obtain rfl := Option.some.inj (hget.symm.trans hq)
        exact hmain
      · refine hkeep m q hq ?_
        rw [hn.log, logOf_append, logOf_namingsOf_ne hm, List.append_nil]
    · exact fun hall => hall main request hget

end State

theorem updates_selected_iff {cfg : Config} {matchString : MatchString} {labels : List Label}
    {s : System} (hrun : exec (step cfg) .initial labels = some s) :
    Always (step cfg) (Selected cfg matchString) .initial labels ↔
      Meets (step cfg) (ExactTypes cfg matchString) .initial labels := by
  have hempty : Selected cfg matchString .initial := fun main request hget => by cases hget
  refine always_iff_meets (I := fun js u => exec (step cfg) .initial js = some u ∧
    Selected cfg matchString u) hrun ⟨rfl, hempty⟩ hempty ?_ ?_
  · intro js label r t _ hr hc ht
    exact ⟨exec_concat.mpr ⟨r, hr.1, ht⟩, (exactTypes_iff hr.1 hr.2 ht).mp hc⟩
  · intro js label r t _ hr ht
    exact exactTypes_iff hr.1 hr.2 ht

def AlwaysSelected (cfg : Config) : Prop :=
  ∀ matchString labels s, exec (step cfg) .initial labels = some s →
    Always (step cfg) (Selected cfg matchString) .initial labels

def ownCar (request : SubscribeContextRequest) : List Label :=
  [.subscribe "main" request, .notify "main" (hosting 201 [("http://broker", car1)]) ["unused"]]

def anyText : MatchString := fun _ _ => true

theorem own_car_selected :
    Always (step exampleConfig) (Selected exampleConfig anyText) .initial (ownCar (byType "Car")) := by
  have hrun : ∃ s t, exec (step exampleConfig) .initial [.subscribe "main" (byType "Car")] =
      some s ∧ exec (step exampleConfig) .initial (ownCar (byType "Car")) = some t ∧
      s.request "main" = some (byType "Car") ∧ s.log = [] := ⟨_, _, rfl, rfl, rfl, rfl⟩
  obtain ⟨s, t, hs, ht, hget, hlog⟩ := hrun
  refine (updates_selected_iff ht).mpr ((meets_concat hs).mpr ⟨?_, ?_⟩)
  · exact meets_singleton.mpr trivial
  · intro request hq _ n hn
    obtain rfl := Option.some.inj (hget.symm.trans hq)
    obtain ⟨⟨before, after, hmem, -⟩, -⟩ := hn
    have hn : n ∈ logOf (s.log ++ namingsOf "main" (hosting 201 [("http://broker", car1)]))
      "main" := by
      rw [hmem]
      simp
    rw [hlog] at hn ⊢
    obtain rfl : n = ⟨"main", .create, "http://broker", car1⟩ := List.mem_singleton.mp hn
    exact Or.inl (by decide)

-- a pattern without a type accepts the car, but its wildcard is never that of the car
theorem pattern_without_type_misses_car : ¬ AlwaysSelected exampleConfig := by
  intro h
  have hrun : ∃ s, exec (step exampleConfig) .initial (ownCar (subscription [⟨"", true, ""⟩])) =
      some s ∧ s.request "main" = some (subscription [⟨"", true, ""⟩]) ∧
      logOf s.log "main" = [⟨"main", .create, "http://broker", car1⟩] ∧
      Forwarding.subscriberList s.broker "car1" "*Car" = [] := ⟨_, rfl, rfl, rfl, rfl⟩
  obtain ⟨s, hs, hget, hlog, hnone⟩ := hrun
  have hpresent : Hosted exampleConfig anyText (logOf s.log "main")
      (subscription [⟨"", true, ""⟩]) ⟨"main", .create, "http://broker", car1⟩ := by
    rw [hlog]
    exact ⟨⟨[], [], rfl, by decide, by simp⟩, rfl, rfl⟩
  have hmem := h anyText _ s hs _ s (List.prefix_refl _) hs "main" _ hget _ hpresent
    ⟨car1, "", [], []⟩ rfl rfl
  have hlist : "main" ∈ Forwarding.subscriberList s.broker "car1" "*Car" := hmem
  rw [hnone] at hlist
  cases hlist

end FogFlow.Broker.Selection
