import Mathlib.Data.List.Basic

namespace FogFlow.Heartbeat

-- how long it takes at most from one heartbeat to the next one, from sending it to receiving it
-- and from one check to the next one, and how old an entry gets before a check removes it
structure Timing where
  period : ℕ
  delay : ℕ
  timeout : ℕ
  interval : ℕ

structure State (ι : Type) where
  now : ℕ
  lastSent : ι → Option ℕ
  stoppedAt : ι → Option ℕ
  inflight : List (ι × ℕ)
  table : ι → Option ℕ
  checked : ℕ

inductive Label (ι : Type) where
  | pass (elapsed : ℕ)
  | send (i : ι)
  | stop (i : ι)
  | arrive (k : ℕ)
  | forget (i : ι)
  | check

variable {ι : Type} [DecidableEq ι]

-- time passes no deadline: neither one of a running sender nor one of a message or of the checks
inductive Step (T : Timing) : State ι → Label ι → State ι → Prop where
  | pass {s : State ι} {elapsed : ℕ}
      (hsend : ∀ i t, s.lastSent i = some t → s.now + elapsed ≤ t + T.period)
      (harrive : ∀ m ∈ s.inflight, s.now + elapsed ≤ m.2 + T.delay)
      (hcheck : s.now + elapsed ≤ s.checked + T.interval) :
      Step T s (.pass elapsed) { s with now := s.now + elapsed }
  | send {s : State ι} {i : ι} : Step T s (.send i) { s with
      lastSent := Function.update s.lastSent i (some s.now)
      stoppedAt := Function.update s.stoppedAt i none
      inflight := s.inflight ++ [(i, s.now)] }
  | stop {s : State ι} {i : ι} : Step T s (.stop i) { s with
      lastSent := Function.update s.lastSent i none
      stoppedAt := Function.update s.stoppedAt i (some s.now) }
  | arrive {s : State ι} {k : ℕ} {m : ι × ℕ} (h : s.inflight[k]? = some m) :
      Step T s (.arrive k) { s with
      inflight := s.inflight.eraseIdx k
      table := Function.update s.table m.1 (some s.now) }
  | forget {s : State ι} {i : ι} : Step T s (.forget i) { s with
      table := Function.update s.table i none }
  | check {s : State ι} : Step T s .check { s with
      table := fun i => (s.table i).filter (fun t => s.now < t + T.timeout)
      checked := s.now }

inductive Run (T : Timing) : State ι → List (Label ι) → State ι → Prop where
  | nil {s : State ι} : Run T s [] s
  | cons {s t u : State ι} {l : Label ι} {ls : List (Label ι)} (hstep : Step T s l t)
      (hrest : Run T t ls u) : Run T s (l :: ls) u

-- a silent sender keeps the time since when it is silent
structure Sound (T : Timing) (s : State ι) : Prop where
  sender : ∀ i t, s.lastSent i = some t → t ≤ s.now ∧ s.now ≤ t + T.period
  message : ∀ m ∈ s.inflight, m.2 ≤ s.now ∧ s.now ≤ m.2 + T.delay
  entry : ∀ i t, s.table i = some t → t ≤ s.now ∧ s.checked < t + T.timeout
  check : s.checked ≤ s.now ∧ s.now ≤ s.checked + T.interval
  silentMessage : ∀ i c, s.stoppedAt i = some c → ∀ m ∈ s.inflight, m.1 = i → m.2 ≤ c
  silentEntry : ∀ i c, s.stoppedAt i = some c → ∀ t, s.table i = some t → t ≤ c + T.delay

-- the entry of a running sender is refreshed before it is too old
def Covered (T : Timing) (i : ι) (s : State ι) : Prop :=
  ∃ t last, s.table i = some t ∧ s.lastSent i = some last ∧
    (last ≤ t ∨ ∃ sent, (i, sent) ∈ s.inflight ∧ sent ≤ t + T.period)

variable {T : Timing} {s t : State ι} {l : Label ι} {ls : List (Label ι)} {i : ι}

theorem Sound.step (hpos : 0 < T.timeout) (h : Sound T s) (hstep : Step T s l t) : Sound T t := by
  obtain ⟨hsender, hmessage, hentry, hcheck, hsilent, hsilentEntry⟩ := h
  cases hstep with
  | pass hs hm hc =>
    refine ⟨fun j r hj => ?_, fun m hmem => ?_, fun j r hj => ?_, ?_, hsilent, hsilentEntry⟩
    · have hold := hsender j r hj
      have hnew := hs j r hj
      dsimp only
      omega
    · have hold := hmessage m hmem
      have hnew := hm m hmem
      dsimp only
      omega
    · have hold := hentry j r hj
      dsimp only
      omega
    · dsimp only
      omega
  | @send j =>
    refine ⟨fun k r hk => ?_, fun m hm => ?_, hentry, hcheck, fun k c hk m hm hmk => ?_,
      fun k c hk r hr => ?_⟩
    · dsimp only at hk ⊢
      rw [Function.update_apply] at hk
      split_ifs at hk with hkj
      · obtain rfl := Option.some.inj hk
        exact ⟨Nat.le_refl _, Nat.le_add_right _ _⟩
      · exact hsender k r hk
    · rcases List.mem_append.mp hm with hm | hm
      · exact hmessage m hm
      · rw [List.mem_singleton.mp hm]
        exact ⟨Nat.le_refl _, Nat.le_add_right _ _⟩
    · dsimp only at hk hm
      rw [Function.update_apply] at hk
      split_ifs at hk with hkj
      rcases List.mem_append.mp hm with hm | hm
      · exact hsilent k c hk m hm hmk
      · rw [List.mem_singleton.mp hm] at hmk
        exact absurd hmk.symm hkj
    · dsimp only at hk
      rw [Function.update_apply] at hk
      split_ifs at hk with hkj
      exact hsilentEntry k c hk r hr
  | @stop j =>
    refine ⟨fun k r hk => ?_, hmessage, hentry, hcheck, fun k c hk m hm hmk => ?_,
      fun k c hk r hr => ?_⟩
    · dsimp only at hk ⊢
      rw [Function.update_apply] at hk
      split_ifs at hk with hkj
      exact hsender k r hk
    · dsimp only at hk hm
      rw [Function.update_apply] at hk
      split_ifs at hk with hkj
      · rw [← Option.some.inj hk]
        exact (hmessage m hm).1
      · exact hsilent k c hk m hm hmk
    · dsimp only at hk hr
      rw [Function.update_apply] at hk
      split_ifs at hk with hkj
      · rw [← Option.some.inj hk]
        exact Nat.le_trans (hentry k r hr).1 (Nat.le_add_right _ _)
      · exact hsilentEntry k c hk r hr
  | @arrive n m hget =>
    have hmem : m ∈ s.inflight := List.mem_of_getElem? hget
    refine ⟨hsender, fun m' hm' => hmessage m' (List.mem_of_mem_eraseIdx hm'), fun k r hk => ?_,
      hcheck, fun k c hk m' hm' => hsilent k c hk m' (List.mem_of_mem_eraseIdx hm'),
      fun k c hk r hr => ?_⟩
    · dsimp only at hk ⊢
      rw [Function.update_apply] at hk
      split_ifs at hk with hkm
      · obtain rfl := Option.some.inj hk
        omega
      · exact hentry k r hk
    · dsimp only at hk hr
      rw [Function.update_apply] at hr
      split_ifs at hr with hkm
      · obtain rfl := Option.some.inj hr
        have hsent := hsilent k c hk m hmem hkm.symm
        have harrived := (hmessage m hmem).2
        omega
      · exact hsilentEntry k c hk r hr
  | @forget j =>
    refine ⟨hsender, hmessage, fun k r hk => ?_, hcheck, hsilent, fun k c hk r hr => ?_⟩
    · dsimp only at hk
      rw [Function.update_apply] at hk
      split_ifs at hk with hkj
      exact hentry k r hk
    · dsimp only at hr
      rw [Function.update_apply] at hr
      split_ifs at hr with hkj
      exact hsilentEntry k c hk r hr
  | check =>
    refine ⟨hsender, hmessage, fun k r hk => ?_, ⟨Nat.le_refl _, Nat.le_add_right _ _⟩, hsilent,
      fun k c hk r hr => ?_⟩
    · obtain ⟨hold, hkept⟩ := Option.filter_eq_some_iff.mp hk
      exact ⟨(hentry k r hold).1, of_decide_eq_true hkept⟩
    · exact hsilentEntry k c hk r (Option.filter_eq_some_iff.mp hr).1

theorem Sound.run (hpos : 0 < T.timeout) (h : Sound T s) (hrun : Run T s ls t) : Sound T t := by
  induction hrun with
  | nil => exact h
  | cons hstep _ ih => exact ih (h.step hpos hstep)

-- the sender was running when its heartbeat arrived
theorem covered_of_arrive (h : Sound T s) {k : ℕ} {m : ι × ℕ} {last : ℕ}
    (hm : s.inflight[k]? = some m) (hrunning : s.lastSent m.1 = some last)
    (hstep : Step T s (.arrive k) t) : Covered T m.1 t := by
  cases hstep with
  | arrive hget =>
    obtain rfl := Option.some.inj (hm.symm.trans hget)
    exact ⟨s.now, last, Function.update_self _ _ _, hrunning, .inl (h.sender _ _ hrunning).1⟩

theorem Covered.step (hlong : T.period + T.delay < T.timeout) (h : Sound T s)
    (hcov : Covered T i s) (hstep : Step T s l t) (hstop : l ≠ .stop i) (hforget : l ≠ .forget i) :
    Covered T i t := by
  obtain ⟨r, last, hr, hlast, hfresh⟩ := hcov
  cases hstep with
  | pass _ _ _ => exact ⟨r, last, hr, hlast, hfresh⟩
  | @send j =>
    have hkept : ∀ sent, (i, sent) ∈ s.inflight → (i, sent) ∈ s.inflight ++ [(j, s.now)] :=
      fun sent hsent => List.mem_append_left _ hsent
    by_cases hij : i = j
    · subst hij
      refine ⟨r, s.now, hr, Function.update_self _ _ _, .inr ?_⟩
      rcases hfresh with hfresh | ⟨sent, hsent, hle⟩
      · have hdue := (h.sender i last hlast).2
        exact ⟨s.now, by simp, by omega⟩
      · exact ⟨sent, hkept sent hsent, hle⟩
    · refine ⟨r, last, hr, (Function.update_of_ne hij _ _).trans hlast, hfresh.imp_right ?_⟩
      rintro ⟨sent, hsent, hle⟩
      exact ⟨sent, hkept sent hsent, hle⟩
  | @stop j =>
    have hij : i ≠ j := fun hij => hstop (by rw [hij])
    exact ⟨r, last, hr, (Function.update_of_ne hij _ _).trans hlast, hfresh⟩
  | @arrive k m hget =>
    by_cases him : i = m.1
    · subst him
      exact ⟨s.now, last, Function.update_self _ _ _, hlast, .inl (h.sender _ _ hlast).1⟩
    · refine ⟨r, last, (Function.update_of_ne him _ _).trans hr, hlast, hfresh.imp_right ?_⟩
      rintro ⟨sent, hsent, hle⟩
      obtain ⟨j, hj⟩ := List.mem_iff_getElem?.mp hsent
      have hne : j ≠ k := by
        rintro rfl
        exact him (congrArg Prod.fst (Option.some.inj (hj.symm.trans hget)))
      exact ⟨sent, List.mem_eraseIdx_iff_getElem?.mpr ⟨j, hne, hj⟩, hle⟩
  | @forget j =>
    have hij : i ≠ j := fun hij => hforget (by rw [hij])
    exact ⟨r, last, (Function.update_of_ne hij _ _).trans hr, hlast, hfresh⟩
  | check =>
    have hyoung : s.now < r + T.timeout := by
      rcases hfresh with hfresh | ⟨sent, hsent, hle⟩
      · have hdue := (h.sender i last hlast).2
        omega
      · have hdue := (h.message _ hsent).2
        dsimp only at hdue
        omega
    refine ⟨r, last, ?_, hlast, hfresh⟩
    dsimp only
    rw [hr, Option.filter_some, if_pos (decide_eq_true hyoung)]

-- no check removes a sender that has been heard of and goes on
theorem Covered.run (hlong : T.period + T.delay < T.timeout) (h : Sound T s)
    (hcov : Covered T i s) (hrun : Run T s ls t) (hstop : .stop i ∉ ls) (hforget : .forget i ∉ ls) :
    Covered T i t := by
  induction hrun with
  | nil => exact hcov
  | cons hstep _ ih =>
    rw [List.mem_cons, not_or] at hstop hforget
    have hnext := hcov.step hlong h hstep (Ne.symm hstop.1) (Ne.symm hforget.1)
    exact ih (h.step (by omega) hstep) hnext hstop.2 hforget.2

omit [DecidableEq ι] in
-- an entry that is left over is removed in time
theorem Sound.removed (h : Sound T s) {c : ℕ} (hc : s.stoppedAt i = some c)
    (hlate : c + T.delay + T.timeout + T.interval ≤ s.now) : s.table i = none := by
  cases hr : s.table i with
  | none => rfl
  | some r =>
    have hold := h.silentEntry i c hc r hr
    have hkept := (h.entry i r hr).2
    have hnext := h.check.2
    omega

end FogFlow.Heartbeat
