import Mathlib.Data.List.Basic
import Mathlib.Data.List.Infix

namespace FogFlow.Execution

variable {σ ι : Type*} {step : σ → ι → Option σ} {s₀ : σ}

-- a label carries every choice of its step, so a run is determined by its labels
def exec (step : σ → ι → Option σ) : σ → List ι → Option σ
  | s, [] => some s
  | s, i :: is => (step s i).bind (fun t => exec step t is)

@[simp] theorem exec_nil (s : σ) : exec step s [] = some s := rfl

theorem exec_append (s : σ) (is js : List ι) :
    exec step s (is ++ js) = (exec step s is).bind (fun t => exec step t js) := by
  induction is generalizing s with
  | nil => rfl
  | cons i is ih =>
    cases h : step s i with
    | none => simp [exec, h]
    | some t => simp [exec, h, ih]

theorem exec_concat {is : List ι} {i : ι} {s u : σ} :
    exec step s (is ++ [i]) = some u ↔ ∃ t, exec step s is = some t ∧ step t i = some u := by
  simp [exec_append, exec, Option.bind_eq_some_iff]

theorem exec_map {τ : Type*} {other : τ → ι → Option τ} {f : σ → τ}
    (hstep : ∀ s i, (step s i).map f = other (f s) i) (s : σ) (is : List ι) :
    (exec step s is).map f = exec other (f s) is := by
  induction is generalizing s with
  | nil => rfl
  | cons i is ih =>
    rw [exec, exec, ← hstep]
    cases step s i with
    | none => rfl
    | some t => exact ih t

theorem exec_of_shorter {is js : List ι} {s : σ} (h : exec step s₀ is = some s) (hp : js <+: is) :
    ∃ t, exec step s₀ js = some t := by
  obtain ⟨ks, rfl⟩ := hp
  rw [exec_append, Option.bind_eq_some_iff] at h
  obtain ⟨t, ht, -⟩ := h
  exact ⟨t, ht⟩

theorem exec_progress {I : σ → Prop} {is : List ι} {s : σ} (h : I s)
    (hstep : ∀ s, ∀ i ∈ is, I s → ∃ t, step s i = some t ∧ I t) :
    ∃ u, exec step s is = some u ∧ I u := by
  induction is generalizing s with
  | nil => exact ⟨s, rfl, h⟩
  | cons i is ih =>
    obtain ⟨t, ht, hI⟩ := hstep s i List.mem_cons_self h
    obtain ⟨u, hu, hIu⟩ := ih hI (fun s j hj => hstep s j (List.mem_cons_of_mem _ hj))
    exact ⟨u, by simp [exec, ht, hu], hIu⟩

theorem exec_total (hstep : ∀ s i, (step s i).isSome) (s : σ) (is : List ι) :
    ∃ t, exec step s is = some t := by
  obtain ⟨t, ht, -⟩ := exec_progress (I := fun _ => True) trivial (fun s i (_ : i ∈ is) _ =>
    (Option.isSome_iff_exists.mp (hstep s i)).imp (fun _ ht => ⟨ht, trivial⟩))
  exact ⟨t, ht⟩

theorem exec_induction {motive : List ι → σ → Prop} {is : List ι} {s : σ}
    (h : exec step s₀ is = some s) (nil : motive [] s₀)
    (snoc : ∀ js i r t, js ++ [i] <+: is → exec step s₀ js = some r → motive js r →
      step r i = some t → motive (js ++ [i]) t) : motive is s := by
  induction is using List.reverseRecOn generalizing s with
  | nil =>
    obtain rfl : s₀ = s := by simpa using h
    exact nil
  | append_singleton is i ih =>
    obtain ⟨t, ht, hs⟩ := exec_concat.mp h
    have hm : motive is t := ih ht (fun js k r u hp => snoc js k r u
      (hp.trans (List.prefix_append _ _)))
    exact snoc is i t s (List.prefix_refl _) ht hm hs

theorem exec_invariant {P : σ → Prop} {is : List ι} {s : σ} (h : exec step s₀ is = some s)
    (h0 : P s₀) (hstep : ∀ s i t, P s → step s i = some t → P t) : P s :=
  exec_induction (motive := fun _ s => P s) h h0
    (fun _ i r t _ _ hr ht => hstep r i t hr ht)

-- a part that stands still or goes one step of its own in each step of the whole
theorem exec_simulated {τ κ : Type*} {o : τ → κ → Option τ} {f : σ → τ} {Q : κ → Prop}
    {is : List ι} {s : σ} (h : exec step s₀ is = some s)
    (hstep : ∀ s t, ∀ i ∈ is, step s i = some t →
      f t = f s ∨ ∃ k, Q k ∧ o (f s) k = some (f t)) :
    ∃ ks, (∀ k ∈ ks, Q k) ∧ exec o (f s₀) ks = some (f s) := by
  refine exec_induction (motive := fun _ s => ∃ ks, (∀ k ∈ ks, Q k) ∧
    exec o (f s₀) ks = some (f s)) h ⟨[], by simp, rfl⟩ ?_
  rintro js i s t hp - ⟨ks, hks, hrun⟩ hs
  rcases hstep s t i (hp.subset (by simp)) hs with hsame | ⟨k, hk, hown⟩
  · exact ⟨ks, hks, by rw [hsame, hrun]⟩
  · refine ⟨ks ++ [k], fun j hj => ?_, exec_concat.mpr ⟨f s, hrun, hown⟩⟩
    rcases List.mem_append.mp hj with hj | hj
    · exact hks j hj
    · rwa [List.mem_singleton.mp hj]

-- every step taken in the run meets C
def Meets (step : σ → ι → Option σ) (C : σ → ι → Prop) (s₀ : σ) (is : List ι) : Prop :=
  ∀ js i s, js ++ [i] <+: is → exec step s₀ js = some s → C s i

-- every state reached in the run has P
def Always (step : σ → ι → Option σ) (P : σ → Prop) (s₀ : σ) (is : List ι) : Prop :=
  ∀ js s, js <+: is → exec step s₀ js = some s → P s

theorem Meets.shorter {C : σ → ι → Prop} {is js : List ι} (h : Meets step C s₀ is)
    (hp : js <+: is) : Meets step C s₀ js :=
  fun ks i s hk hs => h ks i s (hk.trans hp) hs

theorem Always.shorter {P : σ → Prop} {is js : List ι} (h : Always step P s₀ is)
    (hp : js <+: is) : Always step P s₀ js :=
  fun ks s hk hs => h ks s (hk.trans hp) hs

theorem Meets.after {C : σ → ι → Prop} {is js : List ι} {s : σ} (h : Meets step C s₀ (js ++ is))
    (hs : exec step s₀ js = some s) : Meets step C s is := by
  intro ks i t hp ht
  refine h (js ++ ks) i t ?_ ?_
  · rw [List.append_assoc]
    exact (List.prefix_append_right_inj js).mpr hp
  · rw [exec_append, hs]
    exact ht

@[simp] theorem meets_nil {C : σ → ι → Prop} : Meets step C s₀ [] :=
  fun js i s hp _ => by simp at hp

theorem meets_concat {C : σ → ι → Prop} {is : List ι} {i : ι} {s : σ}
    (hs : exec step s₀ is = some s) :
    Meets step C s₀ (is ++ [i]) ↔ Meets step C s₀ is ∧ C s i := by
  constructor
  · exact fun h => ⟨h.shorter (List.prefix_append _ _), h is i s (List.prefix_refl _) hs⟩
  · rintro ⟨hm, hc⟩ js k r hp hr
    rcases List.prefix_concat_iff.mp hp with heq | hp
    · obtain ⟨rfl, hk⟩ := List.append_inj' heq rfl
      obtain rfl : k = i := by simpa using hk
      obtain rfl : s = r := by simpa [hs] using hr
      exact hc
    · exact hm js k r hp hr

theorem meets_singleton {C : σ → ι → Prop} {i : ι} {s : σ} :
    Meets step C s [i] ↔ C s i := by
  have h : Meets step C s ([] ++ [i]) ↔ Meets step C s [] ∧ C s i := meets_concat (exec_nil s)
  simpa using h

theorem meets_cons {C : σ → ι → Prop} {is : List ι} {i : ι} {s : σ} :
    Meets step C s (i :: is) ↔ C s i ∧ ∀ t, step s i = some t → Meets step C t is := by
  constructor
  · intro h
    refine ⟨h [] i s ⟨is, rfl⟩ rfl, fun t ht => ?_⟩
    have hall : Meets step C s ([i] ++ is) := h
    exact hall.after (by simp [exec, ht])
  · rintro ⟨hc, hrest⟩ js j r hp hr
    cases js with
    | nil =>
      obtain rfl : s = r := by simpa using hr
      obtain ⟨rfl, -⟩ := List.cons_prefix_cons.mp hp
      exact hc
    | cons k js =>
      obtain ⟨rfl, hrestp⟩ := List.cons_prefix_cons.mp hp
      obtain ⟨t, ht, hr⟩ := Option.bind_eq_some_iff.mp hr
      exact hrest t ht js j r hrestp hr

theorem meets_step {C : σ → ι → Prop} {is : List ι} {i : ι} {s t : σ} (hc : C s i)
    (hs : step s i = some t) (h : Meets step C t is) : Meets step C s (i :: is) := by
  refine meets_cons.mpr ⟨hc, fun u hu => ?_⟩
  obtain rfl := Option.some.inj (hs.symm.trans hu)
  exact h

def check (step : σ → ι → Option σ) (c : σ → ι → Bool) : σ → List ι → Bool
  | _, [] => true
  | s, i :: is => c s i && (step s i).all (fun t => check step c t is)

theorem meets_of_check {C : σ → ι → Prop} {c : σ → ι → Bool} {is : List ι} {s : σ}
    (hc : ∀ s, ∀ i ∈ is, c s i = true → C s i) (h : check step c s is = true) :
    Meets step C s is := by
  induction is generalizing s with
  | nil => exact meets_nil
  | cons i is ih =>
    obtain ⟨hi, hrest⟩ := Bool.and_eq_true_iff.mp h
    refine meets_cons.mpr ⟨hc s i List.mem_cons_self hi, fun t ht => ?_⟩
    rw [ht] at hrest
    exact ih (fun s i hin => hc s i (List.mem_cons_of_mem _ hin)) hrest

theorem exec_induction_of_meets {C : σ → ι → Prop} {motive : List ι → σ → Prop} {is : List ι}
    {s : σ} (hm : Meets step C s₀ is) (h : exec step s₀ is = some s) (nil : motive [] s₀)
    (snoc : ∀ js i r t, js ++ [i] <+: is → exec step s₀ js = some r → motive js r → C r i →
      step r i = some t → motive (js ++ [i]) t) : motive is s :=
  exec_induction h nil (fun js i r t hp hr hmo ht =>
    snoc js i r t hp hr hmo (hm js i r hp hr) ht)

theorem always_of_meets {C : σ → ι → Prop} {P : σ → Prop} {I : List ι → σ → Prop}
    {is : List ι} (hm : Meets step C s₀ is) (nil : I [] s₀)
    (snoc : ∀ js i r t, js ++ [i] <+: is → exec step s₀ js = some r → I js r → C r i →
      step r i = some t → I (js ++ [i]) t)
    (hP : ∀ js s, I js s → P s) : Always step P s₀ is := by
  intro js s hp hs
  refine hP js s (exec_induction_of_meets (hm.shorter hp) hs nil ?_)
  exact fun ks i r t hk => snoc ks i r t (hk.trans hp)

-- a condition that is exact at every single step is exact for the whole run
theorem always_iff_meets {C : σ → ι → Prop} {P : σ → Prop} {I : List ι → σ → Prop}
    {is : List ι} {u : σ} (hrun : exec step s₀ is = some u) (nil : I [] s₀) (hP0 : P s₀)
    (snoc : ∀ js i r t, js ++ [i] <+: is → I js r → C r i → step r i = some t →
      I (js ++ [i]) t)
    (exact : ∀ js i r t, js ++ [i] <+: is → I js r → step r i = some t → (C r i ↔ P t)) :
    Always step P s₀ is ↔ Meets step C s₀ is := by
  constructor
  · intro hA
    have key : Meets step C s₀ is ∧ I is u := by
      refine exec_induction (motive := fun js s => Meets step C s₀ js ∧ I js s) hrun
        ⟨meets_nil, nil⟩ ?_
      intro js i r t hp hr ⟨hm, hi⟩ ht
      have hc : C r i := (exact js i r t hp hi ht).mpr
        (hA _ _ hp (exec_concat.mpr ⟨r, hr, ht⟩))
      exact ⟨(meets_concat hr).mpr ⟨hm, hc⟩, snoc js i r t hp hi hc ht⟩
    exact key.1
  · intro hm
    have key : Always step (fun s => P s) s₀ is := by
      intro js s hp hs
      have h := exec_induction_of_meets (motive := fun js s => I js s ∧ P s)
        (hm.shorter hp) hs ⟨nil, hP0⟩ (fun ks i r t hk _ hr hc ht =>
          ⟨snoc ks i r t (hk.trans hp) hr.1 hc ht,
            (exact ks i r t (hk.trans hp) hr.1 ht).mp hc⟩)
      exact h.2
    exact key

-- two conditions that agree while I holds are met by the same runs
theorem meets_congr_along {C D : σ → ι → Prop} {I : List ι → σ → Prop} {is : List ι} {u : σ}
    (hrun : exec step s₀ is = some u) (nil : I [] s₀)
    (hiff : ∀ js i s t, js ++ [i] <+: is → I js s → step s i = some t → (C s i ↔ D s i))
    (snoc : ∀ js i s t, js ++ [i] <+: is → I js s → D s i → step s i = some t →
      I (js ++ [i]) t) : Meets step C s₀ is ↔ Meets step D s₀ is := by
  have key : (Meets step C s₀ is ↔ Meets step D s₀ is) ∧ (Meets step D s₀ is → I is u) := by
    refine exec_induction (motive := fun js s =>
      (Meets step C s₀ js ↔ Meets step D s₀ js) ∧ (Meets step D s₀ js → I js s)) hrun ?_ ?_
    · exact ⟨iff_of_true meets_nil meets_nil, fun _ => nil⟩
    · intro js i r t hp hr ⟨ih, hI⟩ ht
      rw [meets_concat hr, meets_concat hr, ih]
      exact ⟨and_congr_right (fun hm => hiff js i r t hp (hI hm) ht),
        fun hm => snoc js i r t hp (hI hm.1) hm.2 ht⟩
  exact key.1

theorem meets_congr {C D : σ → ι → Prop} {P : σ → Prop} {is : List ι} {u : σ}
    (hrun : exec step s₀ is = some u) (h0 : P s₀)
    (hiff : ∀ s i t, P s → step s i = some t → (C s i ↔ D s i))
    (hstep : ∀ s i t, P s → D s i → step s i = some t → P t) :
    Meets step C s₀ is ↔ Meets step D s₀ is :=
  meets_congr_along (I := fun _ s => P s) hrun h0 (fun _ i s t _ => hiff s i t)
    (fun _ i s t _ => hstep s i t)

end FogFlow.Execution
