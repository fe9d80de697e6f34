import FogFlow.Broker.Processing

namespace FogFlow.Broker.RemoteOnce

open Ngsi Execution Processing

def AtMostOnce (s : System) : Prop :=
  ∀ main provider entity, live s.broker main provider entity ≤ 1

def Cancelled (t : System) : Label → Prop
  | .subscribe _ _ => True
  | .notify main req _ => actionOf req.errorCode.code = .delete →
      ∀ n ∈ namingsOf main req, live t.broker n.main n.provider n.entity = 0

def Handled (cfg : Config) (s : System) (label : Label) : Prop :=
  ∀ t, step cfg s label = some t → AtMostOnce t ∧ Cancelled t label

-- a registration asks for nothing that is subscribed already, and a deletion leaves nothing over
def TurnUnrepeated (cfg : Config) (main : String) (action : Action)
    (request : SubscribeContextRequest) (s : System) (r : Turn) : Prop :=
  let registration := r.1.contextRegistration
  let provider := registration.providingApplication
  if action = .delete then
    ∀ e ∈ registration.entityIdList, live s.broker main provider e = 0
  else provider ≠ cfg.myURL → ∀ entity,
    reaches (remoteRequest cfg (remoteEntities s.broker.entityId2Subcriptions (some request) main
      registration) registration) entity = true → live s.broker main provider entity = 0

def Unrepeated (cfg : Config) (s : System) : Label → Prop
  | .subscribe _ _ => True
  | .notify main req sids => ∀ request, s.request main = some request →
      Meets (turnStep cfg main (actionOf req.errorCode.code) request)
        (TurnUnrepeated cfg main (actionOf req.errorCode.code) request) s
        (req.contextRegistrationResponseList.zip sids)

section Message

variable {cfg : Config} {main : String} {action : Action} {request : SubscribeContextRequest}
  {s t : System} {r : Turn} {rs : List Turn}

theorem atMostOnce_turn_iff (h : Known s) (honce : AtMostOnce s) (hfresh : s.request r.2 = none)
    (hact : action ≠ .delete) : TurnUnrepeated cfg main action request s r ↔
      AtMostOnce (turn cfg main action request s r) := by
  have hadd : ∀ m provider entity,
      live (turn cfg main action request s r).broker m provider entity = _ :=
    fun m provider entity => live_turn h hfresh m provider entity
  simp only [TurnUnrepeated, if_neg hact]
  constructor
  · intro hturn m provider entity
    rw [hadd]
    split_ifs with hnew
    · obtain ⟨rfl, hnew⟩ := hnew
      obtain ⟨howner, -, rfl, hreach⟩ := (remote_any _ _ _ _).mp hnew
      rw [hturn howner entity hreach]
    · exact honce m provider entity
  · intro hall howner entity hreach
    have hle := hall main r.1.contextRegistration.providingApplication entity
    rw [hadd, if_pos ⟨rfl, (remote_any _ _ _ _).mpr ⟨howner, hact, rfl, hreach⟩⟩] at hle
    omega

theorem live_deletion (h : Known s) (hfresh : s.request r.2 = none) (m provider : String)
    (entity : EntityId) : live (turn cfg main .delete request s r).broker m provider entity =
      live s.broker m provider entity := by
  rw [live_turn h hfresh, if_neg, Nat.add_zero]
  rintro ⟨-, hany⟩
  exact ((remote_any _ _ _ _).mp hany).2.1 rfl

theorem atMostOnce_run_iff (h : Known s) (hmain : s.request main = some request)
    (honce : AtMostOnce s) (hact : action ≠ .delete)
    (hrun : exec (turnStep cfg main action request) s rs = some t) :
    Meets (turnStep cfg main action request) (TurnUnrepeated cfg main action request) s rs ↔
      AtMostOnce t := by
  have hstep : ∀ js r u v, js ++ [r] <+: rs →
      ((Known u ∧ u.request main = some request) ∧ AtMostOnce u) →
      turnStep cfg main action request u r = some v →
      (TurnUnrepeated cfg main action request u r ↔ AtMostOnce v) := by
    intro js r u v _ hu hv
    obtain ⟨hfresh, rfl⟩ := turn_of_turnStep hv
    exact atMostOnce_turn_iff hu.1.1 hu.2 hfresh hact
  have hall := always_iff_meets (P := AtMostOnce)
    (I := fun _ u => (Known u ∧ u.request main = some request) ∧ AtMostOnce u) hrun
    ⟨⟨h, hmain⟩, honce⟩ honce (fun js r u v hp hu hc hv =>
      ⟨⟨(known_turnStep hu.1.1 (by simp [hu.1.2]) hv).1,
        (known_turnStep hu.1.1 (by simp [hu.1.2]) hv).2.trans hu.1.2⟩,
        (hstep js r u v hp hu hv).mp hc⟩) hstep
  rw [← hall]
  constructor
  · exact fun h => h rs t (List.prefix_refl _) hrun
  · rintro hlast js u ⟨ks, rfl⟩ hu m provider entity
    rw [exec_append, hu, Option.bind_some] at hrun
    obtain ⟨hknown, hget⟩ := known_run h hmain hu
    exact (live_le_run hknown hget hrun m provider entity).trans (hlast m provider entity)

theorem live_deletion_run (h : Known s) (hmain : s.request main = some request)
    (hrun : exec (turnStep cfg main .delete request) s rs = some t) (m provider : String)
    (entity : EntityId) :
    live t.broker m provider entity = live s.broker m provider entity := by
  refine exec_induction (motive := fun _ u => live u.broker m provider entity =
    live s.broker m provider entity) hrun rfl ?_
  intro js r u v _ hu hsame hv
  obtain ⟨hfresh, rfl⟩ := turn_of_turnStep hv
  rw [live_deletion (known_run h hmain hu).1 hfresh, hsame]

theorem deletion_run_iff (h : Known s) (hmain : s.request main = some request)
    (hrun : exec (turnStep cfg main .delete request) s rs = some t) :
    Meets (turnStep cfg main .delete request) (TurnUnrepeated cfg main .delete request) s rs ↔
      ∀ r ∈ rs, ∀ e ∈ r.1.contextRegistration.entityIdList,
        live t.broker main r.1.contextRegistration.providingApplication e = 0 := by
  have hlive : ∀ js u, exec (turnStep cfg main .delete request) s js = some u →
      ∀ provider e, live u.broker main provider e = live t.broker main provider e := by
    intro js u hu provider e
    rw [live_deletion_run h hmain hu, live_deletion_run h hmain hrun]
  constructor
  · intro hmeets r hr e he
    obtain ⟨js, ks, rfl⟩ := List.append_of_mem hr
    have hp : js ++ [r] <+: js ++ r :: ks := ⟨ks, by simp⟩
    obtain ⟨u, hu⟩ := exec_of_shorter hrun ((List.prefix_append js [r]).trans hp)
    rw [← hlive js u hu]
    exact hmeets js r u hp hu e he
  · intro hall js r u hp hu e he
    rw [hlive js u hu]
    exact hall r (hp.subset (by simp)) e he

end Message

theorem mem_namingsOf_iff {main : String} {req : NotifyContextAvailabilityRequest}
    {sids : List String} (hlen : sids.length = req.contextRegistrationResponseList.length)
    {P : Naming → Prop} : (∀ n ∈ namingsOf main req, P n) ↔
      ∀ r ∈ req.contextRegistrationResponseList.zip sids,
        ∀ n ∈ namings main (actionOf req.errorCode.code) r.1.contextRegistration, P n := by
  have hmap : (req.contextRegistrationResponseList.zip sids).map Prod.fst =
      req.contextRegistrationResponseList := List.map_fst_zip (le_of_eq hlen.symm)
  unfold namingsOf
  conv_lhs => rw [← hmap]
  simp only [List.mem_flatMap, List.mem_map]
  constructor
  · exact fun h r hr n hn => h n ⟨r.1, ⟨r, hr, rfl⟩, hn⟩
  · rintro h n ⟨registrationResp, ⟨r, hr, rfl⟩, hn⟩
    exact h r hr n hn

theorem handled_iff_unrepeated {cfg : Config} {s t : System} (label : Label)
    (h : Known s ∧ AtMostOnce s) (hs : step cfg s label = some t) :
    Handled cfg s label ↔ Unrepeated cfg s label := by
  have hthis : Handled cfg s label ↔ AtMostOnce t ∧ Cancelled t label := by
    constructor
    · exact fun hall => hall t hs
    · intro hall u hu
      obtain rfl := Option.some.inj (hs.symm.trans hu)
      exact hall
  rw [hthis]
  cases label with
  | subscribe subID subReq =>
    refine iff_of_true ⟨fun m provider entity => ?_, trivial⟩ trivial
    rw [live_subscribe h.1 hs]
    exact h.2 m provider entity
  | notify main req sids =>
    obtain ⟨request, hn⟩ := notified_of_step h.1 hs
    have hcond : Unrepeated cfg s (.notify main req sids) ↔
        Meets (turnStep cfg main (actionOf req.errorCode.code) request)
          (TurnUnrepeated cfg main (actionOf req.errorCode.code) request) s
          (req.contextRegistrationResponseList.zip sids) := by
      simp only [Unrepeated, hn.behind, Option.some.injEq, forall_eq']
    rw [hcond]
    have hrun := hn.run
    by_cases hact : actionOf req.errorCode.code = .delete
    · rw [hact] at hrun
      have honce : AtMostOnce t := by
        intro m provider entity
        rw [live_deletion_run h.1 hn.behind hrun]
        exact h.2 m provider entity
      simp only [Cancelled, hact, deletion_run_iff h.1 hn.behind hrun, and_iff_right honce,
        forall_const]
      rw [mem_namingsOf_iff hn.length]
      simp [namings]
    · simp only [Cancelled, atMostOnce_run_iff h.1 hn.behind h.2 hact hrun, hact, false_imp_iff,
        and_true]

theorem atMostOnce_step {cfg : Config} {s t : System} {label : Label} (h : Known s ∧ AtMostOnce s)
    (hc : Unrepeated cfg s label) (hs : step cfg s label = some t) : Known t ∧ AtMostOnce t :=
  ⟨known_step h.1 hs, ((handled_iff_unrepeated label h hs).mpr hc t hs).1⟩

def repeatedFor (request : SubscribeContextRequest) : List Label :=
  [.subscribe "main" request, .notify "main" (hosting 201 [("http://east", car1)]) ["first"],
    .notify "main" (hosting 301 [("http://east", car1)]) ["second"]]

def AlwaysHandled (cfg : Config) : Prop :=
  ∀ labels s, exec (step cfg) .initial labels = some s →
    Meets (step cfg) (Handled cfg) .initial labels

end FogFlow.Broker.RemoteOnce
