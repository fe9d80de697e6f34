import FogFlow.Broker.Processing

namespace FogFlow.Broker.Coverage

open Ngsi Execution Processing

def Covered (cfg : Config) (s : System) : Prop :=
  ∀ n ∈ s.log, n.provider ≠ cfg.myURL → 0 < live s.broker n.main n.provider n.entity

def firstProvider (log : List Naming) (type : String) : Option String :=
  (log.find? (fun n => n.entity.type == type)).map Naming.provider

-- a by-type subscription lists the type of each entity that is hosted elsewhere, and the
-- provider is the one that the first notification of this type has named
def FromFirst (cfg : Config) (s : System) : Label → Prop
  | .subscribe _ _ => True
  | .notify main req _ => ∀ request, s.request main = some request →
      request.isSimplyByType = true → ∀ n ∈ namingsOf main req, n.provider ≠ cfg.myURL →
        (∃ e ∈ request.entities, e.type = n.entity.type) ∧
          firstProvider (logOf (s.log ++ namingsOf main req) main) n.entity.type =
            some n.provider

-- what the log of a subscription says about its entries in the maps
structure Fits (cfg : Config) (s : System) (main : String) (request : SubscribeContextRequest) :
    Prop where
  indexed : request.isSimplyByType = true → ∀ type,
    main ∈ s.broker.entityId2Subcriptions.slice (genWildCard type) ↔
      (∃ e ∈ request.entities, e.type = type) ∧ firstProvider (logOf s.log main) type ≠ none
  byType : request.isSimplyByType = true → ∀ provider entity,
    0 < live s.broker main provider entity ↔
      (∃ e ∈ request.entities, e.type = entity.type) ∧ provider ≠ cfg.myURL ∧
        firstProvider (logOf s.log main) entity.type = some provider
  byId : request.isSimplyByType = false → ∀ n ∈ logOf s.log main, n.provider ≠ cfg.myURL →
    0 < live s.broker main n.provider n.entity

theorem firstProvider_append (a b : List Naming) (type : String) :
    firstProvider (a ++ b) type = (firstProvider a type).or (firstProvider b type) := by
  simp only [firstProvider, List.find?_append, Option.map_or]

theorem firstProvider_ne_none {log : List Naming} {type : String} :
    firstProvider log type ≠ none ↔ ∃ n ∈ log, n.entity.type = type := by
  simp [firstProvider, List.find?_eq_none]

section Turn

variable {cfg : Config} {main m : String} {action : Action} {request q : SubscribeContextRequest}
  {s t : System} {r : Turn}

theorem firstProvider_namings (registration : ContextRegistration) (type : String) :
    firstProvider (namings main action registration) type =
      if ∃ e ∈ registration.entityIdList, e.type = type then
        some registration.providingApplication else none := by
  split_ifs with hnamed
  · obtain ⟨e, he, htype⟩ := hnamed
    have hne : firstProvider (namings main action registration) type ≠ none :=
      firstProvider_ne_none.mpr ⟨_, List.mem_map_of_mem he, htype⟩
    obtain ⟨p, hp⟩ := Option.ne_none_iff_exists'.mp hne
    obtain ⟨n, hn, rfl⟩ := Option.map_eq_some_iff.mp hp
    obtain ⟨e', -, rfl⟩ := List.mem_map.mp (List.mem_of_find?_eq_some hn)
    exact hp
  · by_contra hne
    obtain ⟨n, hn, htype⟩ := firstProvider_ne_none.mp hne
    obtain ⟨e, he, rfl⟩ := List.mem_map.mp hn
    exact hnamed ⟨e, he, htype⟩

theorem fits_unknown (h : Known s) (hm : s.request m = none) : Fits cfg s m q := by
  refine ⟨fun _ type => ?_, fun _ provider entity => ?_, fun _ n hn => ?_⟩
  · rw [← List.count_pos_iff, unknown_index h hm, unknown_log h hm]
    exact ⟨fun hlt => absurd hlt (lt_irrefl 0), fun hfirst => absurd rfl hfirst.2⟩
  · rw [unknown_live h hm, unknown_log h hm]
    exact ⟨fun hlt => absurd hlt (lt_irrefl 0), fun hfirst => by cases hfirst.2.2⟩
  · rw [unknown_log h hm] at hn
    cases hn

theorem fits_of_same (hsame : SameFor m s t) (h : Fits cfg s m q) : Fits cfg t m q := by
  refine ⟨fun hsimple type => ?_, fun hsimple provider entity => ?_, fun hsimple n hn hp => ?_⟩
  · rw [← List.count_pos_iff, hsame.index, hsame.log, List.count_pos_iff]
    exact h.indexed hsimple type
  · rw [hsame.live, hsame.log]
    exact h.byType hsimple provider entity
  · rw [hsame.live]
    exact h.byId hsimple n (hsame.log ▸ hn) hp

theorem live_turn_pos (h : Known s) (hfresh : s.request r.2 = none) (provider : String)
    (entity : EntityId) :
    0 < live (turn cfg main action request s r).broker main provider entity ↔
      0 < live s.broker main provider entity ∨
        (remoteOf cfg main action request s r).any (fun q =>
          q.subscriber.brokerURL == provider && reaches q entity) = true := by
  rw [live_turn h hfresh]
  split_ifs with hadd
  · exact ⟨fun _ => Or.inr hadd.2, fun _ => Nat.succ_pos _⟩
  · exact ⟨Or.inl, fun hor => hor.resolve_right (fun hany => hadd ⟨rfl, hany⟩)⟩

theorem fits_turn (h : Known s) (hfresh : s.request r.2 = none) (hact : action ≠ .delete)
    (hfits : Fits cfg s main request) : Fits cfg (turn cfg main action request s r) main request := by
  have hlog : logOf (turn cfg main action request s r).log main =
      logOf s.log main ++ namings main action r.1.contextRegistration := logOf_turn s r
  refine ⟨fun hsimple type => ?_, fun hsimple provider entity => ?_, fun hsimple n hn hp => ?_⟩
  · rw [index_turn, mem_byType hact hsimple, hfits.indexed hsimple, hlog, firstProvider_append,
      firstProvider_namings]
    cases firstProvider (logOf s.log main) type with
    | none => by_cases hnamed : ∃ e ∈ r.1.contextRegistration.entityIdList, e.type = type <;>
        simp [hnamed]
    | some p =>
      simp only [ne_eq, reduceCtorEq, not_false_eq_true, and_true, Option.some_or]
      exact or_iff_left_of_imp And.left
  · rw [live_turn_pos h hfresh, hfits.byType hsimple, remoteOf, remote_any,
      reaches_byType hsimple, hfits.indexed hsimple, hlog, firstProvider_append,
      firstProvider_namings]
    cases firstProvider (logOf s.log main) entity.type with
    | none =>
      by_cases hnamed : ∃ e ∈ r.1.contextRegistration.entityIdList, e.type = entity.type
      · rw [if_pos hnamed]
        simp only [hnamed, hact, Option.none_or, Option.some.injEq, ne_eq, reduceCtorEq, not_true,
          not_false_eq_true, and_false, false_or, true_and, and_true]
        constructor
        · rintro ⟨howner, rfl, hlisted⟩
          exact ⟨hlisted, howner, rfl⟩
        · rintro ⟨hlisted, howner, rfl⟩
          exact ⟨howner, rfl, hlisted⟩
      · simp [hnamed]
    | some p =>
      simp only [Option.some_or, ne_eq, reduceCtorEq, not_false_eq_true, and_true]
      refine or_iff_left_of_imp ?_
      rintro ⟨-, -, -, hlisted, -, hindex⟩
      exact absurd hlisted hindex
  · rw [live_turn_pos h hfresh]
    rw [hlog] at hn
    rcases List.mem_append.mp hn with hold | hnew
    · exact Or.inl (hfits.byId hsimple n hold hp)
    · obtain ⟨e, he, rfl⟩ := List.mem_map.mp hnew
      right
      rw [remoteOf, remote_any]
      refine ⟨hp, hact, rfl, reaches_of_mem ?_⟩
      simpa [remoteEntities, hsimple] using he

end Turn

theorem local_fits (cfg : Config) :
    Local cfg (· ≠ .delete) (fun s main request => Fits cfg s main request) where
  unknown := fits_unknown
  same := fits_of_same
  turn := fun hact h hfresh hfits => fits_turn h hfresh hact hfits

theorem covered_iff_fromFirst {cfg : Config} {s t : System} {label : Label} (h : ForAll (Fits cfg) s)
    (hcovered : Covered cfg s) (hcreate : label.action ≠ some .delete)
    (hs : step cfg s label = some t) : FromFirst cfg s label ↔ Covered cfg t := by
  have hmono := live_le_step h.1 hs
  have hinv := (local_fits cfg).keeps_step h (fun action hact heq => hcreate (heq ▸ hact)) hs
  have hkeep : ∀ n ∈ s.log, n.provider ≠ cfg.myURL → 0 < live t.broker n.main n.provider n.entity :=
    fun n hn hp => (hcovered n hn hp).trans_le (hmono n.main n.provider n.entity)
  cases label with
  | subscribe subID subReq =>
    obtain ⟨-, rfl⟩ := subscribed_of_step h.1 hs
    exact ⟨fun _ => hkeep, fun _ => trivial⟩
  | notify main req sids =>
    obtain ⟨request, hn⟩ := notified_of_step h.1 hs
    have hget : t.request main = some request :=
      (request_of_step h.1 hs (by simp [hn.behind])).trans hn.behind
    have hfits := hinv.2 main request hget hn.external
    have hmain : ∀ n ∈ namingsOf main req, n.main = main := fun n => main_of_mem_namingsOf
    have hnew : Covered cfg t ↔ ∀ n ∈ namingsOf main req, n.provider ≠ cfg.myURL →
        0 < live t.broker main n.provider n.entity := by
      unfold Covered
      rw [hn.log]
      constructor
      · intro hall n hmem hp
        have hlt := hall n (List.mem_append_right _ hmem) hp
        rwa [hmain n hmem] at hlt
      · intro hall n hmem hp
        rcases List.mem_append.mp hmem with hold | hnew
        · exact hkeep n hold hp
        · rw [hmain n hnew]
          exact hall n hnew hp
    rw [hnew]
    cases hsimple : request.isSimplyByType with
    | true =>
      have hlog := hn.log
      simp only [FromFirst, hn.behind, Option.some.injEq, forall_eq', hsimple, forall_const,
        hfits.byType hsimple, ← hlog]
      refine forall_congr' (fun n => forall_congr' (fun _ => forall_congr' (fun hp => ?_)))
      exact and_congr_right (fun _ => (and_iff_right hp).symm)
    | false =>
      refine ⟨fun _ n hmem hp => hfits.byId hsimple n ?_ hp, fun _ q hq hbyType => ?_⟩
      · rw [logOf, hn.log]
        exact List.mem_filter.mpr ⟨List.mem_append_right _ hmem, beq_iff_eq.mpr (hmain n hmem)⟩
      · obtain rfl := Option.some.inj (hn.behind.symm.trans hq)
        simp [hsimple] at hbyType

def carsAt (provider1 provider2 : String) : List Label :=
  [.subscribe "main" (byType "Car"),
    .notify "main" (hosting 201 [(provider1, car1), (provider2, car2)]) ["remote1", "remote2"]]

def AlwaysCovered (cfg : Config) : Prop :=
  ∀ labels s, exec (step cfg) .initial labels = some s →
    (∀ label ∈ labels, label.action ≠ some .delete) → Always (step cfg) (Covered cfg) .initial labels

end FogFlow.Broker.Coverage
