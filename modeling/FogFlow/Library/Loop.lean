import FogFlow.Library.GoMap

namespace FogFlow.Loop

variable {ε α β : Type} {f : β → α → Except ε β} {init out : β}

@[simp] theorem ok_bind {γ : Type} (a : α) (g : α → Except ε γ) : (Except.ok a >>= g) = g a := rfl

theorem bind_eq_ok {γ : Type} {x : Except ε α} {g : α → Except ε γ} {c : γ} :
    (x >>= g) = .ok c ↔ ∃ a, x = .ok a ∧ g a = .ok c := by
  cases x with
  | error e => simp [bind, Except.bind]
  | ok a => simp

def Ends (x : Except ε α) : Prop := ∃ a, x = .ok a

@[simp] theorem ends_ok (a : α) : Ends (Except.ok a : Except ε α) := ⟨a, rfl⟩

@[simp] theorem not_ends_error (e : ε) : ¬ Ends (Except.error e : Except ε α) := by
  simp [Ends]

theorem ends_bind {γ : Type} {x : Except ε α} {g : α → Except ε γ} :
    Ends (x >>= g) ↔ ∃ a, x = .ok a ∧ Ends (g a) := by
  constructor
  · rintro ⟨c, hc⟩
    obtain ⟨a, ha, hg⟩ := bind_eq_ok.mp hc
    exact ⟨a, ha, c, hg⟩
  · rintro ⟨a, ha, c, hg⟩
    exact ⟨c, bind_eq_ok.mpr ⟨a, ha, hg⟩⟩

theorem ends_bind_ok {γ : Type} {x : Except ε α} {g : α → γ} :
    Ends (x >>= fun a => .ok (g a)) ↔ Ends x := by
  rw [ends_bind]
  simp [Ends]

theorem foldlM_concat {xs : List α} {x : α} :
    (xs ++ [x]).foldlM f init = .ok out ↔
      ∃ acc, xs.foldlM f init = .ok acc ∧ f acc x = .ok out := by
  rw [List.foldlM_append, bind_eq_ok]
  simp

-- the invariant of a loop speaks of the elements already visited
theorem foldlM_invariant {I : List α → β → Prop} {xs : List α} (h : xs.foldlM f init = .ok out)
    (nil : I [] init)
    (snoc : ∀ done x rest acc next, xs = done ++ x :: rest → I done acc → f acc x = .ok next →
      I (done ++ [x]) next) : I xs out := by
  induction xs using List.reverseRecOn generalizing out with
  | nil =>
    obtain rfl : init = out := Except.ok.inj h
    exact nil
  | append_singleton xs x ih =>
    obtain ⟨acc, hacc, hx⟩ := foldlM_concat.mp h
    have hI : I xs acc := ih hacc (fun done y rest acc next hxs =>
      snoc done y (rest ++ [x]) acc next (by simp [hxs]))
    exact snoc xs x [] acc out rfl hI hx

theorem foldlM_total {I : List α → β → Prop} {xs : List α} (nil : I [] init)
    (snoc : ∀ done x rest acc, xs = done ++ x :: rest → I done acc →
      ∃ next, f acc x = .ok next ∧ I (done ++ [x]) next) :
    ∃ out, xs.foldlM f init = .ok out ∧ I xs out := by
  induction xs using List.reverseRecOn with
  | nil => exact ⟨init, rfl, nil⟩
  | append_singleton xs x ih =>
    obtain ⟨acc, hacc, hI⟩ := ih (fun done y rest acc hxs =>
      snoc done y (rest ++ [x]) acc (by simp [hxs]))
    obtain ⟨next, hnext, hI'⟩ := snoc xs x [] acc rfl hI
    exact ⟨next, foldlM_concat.mpr ⟨acc, hacc, hnext⟩, hI'⟩

-- a loop that also counts its elements
theorem foldlM_zipIdx_invariant {f : β → α × Nat → Except ε β} {I : List α → β → Prop}
    {xs : List α} (h : xs.zipIdx.foldlM f init = .ok out) (nil : I [] init)
    (snoc : ∀ done x rest i acc next, xs = done ++ x :: rest → I done acc →
      f acc (x, i) = .ok next → I (done ++ [x]) next) : I xs out := by
  have hloop : I (xs.zipIdx.map Prod.fst) out := by
    refine foldlM_invariant (I := fun done acc => I (done.map Prod.fst) acc) h nil ?_
    intro done x rest acc next hsplit hI hnext
    have hfst := congrArg (List.map Prod.fst) hsplit
    rw [List.zipIdx_map_fst, List.map_append, List.map_cons] at hfst
    rw [List.map_append]
    exact snoc _ x.1 _ x.2 acc next hfst hI hnext
  rwa [List.zipIdx_map_fst] at hloop

theorem foldlM_zipIdx_total {f : β → α × Nat → Except ε β} {I : List α → β → Prop} {xs : List α}
    (nil : I [] init)
    (snoc : ∀ done x rest i acc, xs = done ++ x :: rest → I done acc →
      ∃ next, f acc (x, i) = .ok next ∧ I (done ++ [x]) next) :
    ∃ out, xs.zipIdx.foldlM f init = .ok out ∧ I xs out := by
  have hloop : ∃ out, xs.zipIdx.foldlM f init = .ok out ∧ I (xs.zipIdx.map Prod.fst) out := by
    refine foldlM_total (I := fun done acc => I (done.map Prod.fst) acc) nil ?_
    intro done x rest acc hsplit hI
    have hfst := congrArg (List.map Prod.fst) hsplit
    rw [List.zipIdx_map_fst, List.map_append, List.map_cons] at hfst
    rw [List.map_append]
    exact snoc _ x.1 _ x.2 acc hfst hI
  rwa [List.zipIdx_map_fst] at hloop

-- the entries that a loop over a map has visited are a map themselves
theorem foldlM_range_total {V : Type} {f : β → GoMap.Entry V → Except ε β}
    {I : GoMap V → β → Prop} {m : GoMap V} (rank : String → Nat) (nil : I ∅ init)
    (step : ∀ visited k v acc, m.get k = some v → visited.get k = none → I visited acc →
      ∃ next, f acc ⟨k, v⟩ = .ok next ∧ I (visited.set k v) next) :
    ∃ visited out, (m.range rank).foldlM f init = .ok out ∧ I visited out ∧
      ∀ k, visited.get k = m.get k := by
  have hstep : ∀ done (e : GoMap.Entry V) rest acc, m.range rank = done ++ e :: rest →
      (∃ visited : GoMap V,
        (∀ k v, visited.get k = some v ↔ (⟨k, v⟩ : GoMap.Entry V) ∈ done) ∧ I visited acc) →
      ∃ next, f acc e = .ok next ∧ ∃ visited : GoMap V,
        (∀ k v, visited.get k = some v ↔ (⟨k, v⟩ : GoMap.Entry V) ∈ done ++ [e]) ∧
          I visited next := by
    rintro done ⟨k, v⟩ rest acc hrange ⟨visited, hvisited, hI⟩
    have hmem : (⟨k, v⟩ : GoMap.Entry V) ∈ m.range rank := by
      rw [hrange]
      simp
    have hnone : visited.get k = none := by
      rw [Option.eq_none_iff_forall_ne_some]
      intro w hw
      have hpairs := GoMap.range_pairwise rank m
      rw [hrange, List.pairwise_append] at hpairs
      exact hpairs.2.2 _ ((hvisited k w).mp hw) ⟨k, v⟩ (by simp) rfl
    obtain ⟨next, hnext, hI'⟩ := step visited k v acc (GoMap.mem_range.mp hmem) hnone hI
    refine ⟨next, hnext, visited.set k v, fun k' w => ?_, hI'⟩
    rw [GoMap.get_set, List.mem_append, List.mem_singleton, ← hvisited]
    split_ifs with hk
    · subst hk
      simp [hnone, eq_comm]
    · simp [hk]
  obtain ⟨out, hout, visited, hvisited, hI⟩ := foldlM_total
    (I := fun done acc => ∃ visited : GoMap V,
      (∀ k v, visited.get k = some v ↔ (⟨k, v⟩ : GoMap.Entry V) ∈ done) ∧ I visited acc)
    ⟨∅, by simp, nil⟩ hstep
  exact ⟨visited, out, hout, hI, fun k => Option.ext (fun v => (hvisited k v).trans
    GoMap.mem_range)⟩

theorem mapM_eq_ok {γ : Type} {f : α → Except ε γ} {g : α → γ} {xs : List α}
    (h : ∀ x ∈ xs, f x = .ok (g x)) : xs.mapM f = .ok (xs.map g) := by
  induction xs with
  | nil => rfl
  | cons x xs ih =>
    rw [List.mapM_cons, h x (by simp), ok_bind, ih (fun y hy => h y (by simp [hy])), ok_bind]
    rfl

theorem mapM_total {γ : Type} {f : α → Except ε γ} {Q : α → γ → Prop} {xs : List α}
    (h : ∀ x ∈ xs, ∃ y, f x = .ok y ∧ Q x y) :
    ∃ ys, xs.mapM f = .ok ys ∧ List.Forall₂ Q xs ys := by
  induction xs with
  | nil => exact ⟨[], rfl, .nil⟩
  | cons x xs ih =>
    obtain ⟨y, hy, hQ⟩ := h x (by simp)
    obtain ⟨ys, hys, hQs⟩ := ih (fun z hz => h z (by simp [hz]))
    refine ⟨y :: ys, ?_, .cons hQ hQs⟩
    rw [List.mapM_cons, hy, ok_bind, hys, ok_bind]
    rfl

def Avoids (e : ε) (x : Except ε α) : Prop := x ≠ .error e

@[simp] theorem avoids_ok (e : ε) (a : α) : Avoids e (Except.ok a : Except ε α) := by
  simp [Avoids]

theorem avoids_bind {γ : Type} {e : ε} {x : Except ε α} {g : α → Except ε γ} (hx : Avoids e x)
    (hg : ∀ a, x = .ok a → Avoids e (g a)) : Avoids e (x >>= g) := by
  cases x with
  | error e' => simpa [Avoids, bind, Except.bind] using hx
  | ok a => exact hg a rfl

theorem foldlM_avoids {e : ε} {I : List α → β → Prop} {xs : List α} (nil : I [] init)
    (snoc : ∀ done x rest acc, xs = done ++ x :: rest → I done acc →
      Avoids e (f acc x) ∧ ∀ next, f acc x = .ok next → I (done ++ [x]) next) :
    Avoids e (xs.foldlM f init) := by
  induction xs using List.reverseRecOn with
  | nil => exact avoids_ok e init
  | append_singleton xs x ih =>
    have hsnoc : ∀ done y rest acc, xs = done ++ y :: rest → I done acc →
        Avoids e (f acc y) ∧ ∀ next, f acc y = .ok next → I (done ++ [y]) next :=
      fun done y rest acc hxs => snoc done y (rest ++ [x]) acc (by simp [hxs])
    rw [List.foldlM_append]
    refine avoids_bind (ih hsnoc) (fun acc hacc => ?_)
    have hI : I xs acc := foldlM_invariant hacc nil
      (fun done y rest acc next hxs hI hnext => (hsnoc done y rest acc hxs hI).2 next hnext)
    rw [List.foldlM_cons]
    exact avoids_bind (snoc xs x [] acc rfl hI).1 (fun _ _ => avoids_ok e _)

theorem ends_foldlM {xs : List α} (h : ∀ acc, ∀ x ∈ xs, Ends (f acc x)) :
    Ends (xs.foldlM f init) := by
  induction xs generalizing init with
  | nil => exact ends_ok init
  | cons x xs ih =>
    obtain ⟨acc, hacc⟩ := h init x List.mem_cons_self
    rw [List.foldlM_cons, hacc, ok_bind]
    exact ih (fun acc y hy => h acc y (List.mem_cons_of_mem _ hy))

theorem foldlM_ends_iff {E : α → Prop} (h : ∀ acc x, Ends (f acc x) ↔ E x) {xs : List α} :
    Ends (xs.foldlM f init) ↔ ∀ x ∈ xs, E x := by
  induction xs generalizing init with
  | nil => simp [Ends, pure, Except.pure]
  | cons x xs ih =>
    rw [List.foldlM_cons, ends_bind, List.forall_mem_cons]
    constructor
    · rintro ⟨acc, hacc, hrest⟩
      exact ⟨(h init x).mp ⟨acc, hacc⟩, ih.mp hrest⟩
    · rintro ⟨hx, hrest⟩
      obtain ⟨acc, hacc⟩ := (h init x).mpr hx
      exact ⟨acc, hacc, ih.mpr hrest⟩

-- a loop whose body only stores what it computes ends iff every computation does
theorem foldlM_ends {γ : Type} {g : α → Except ε γ} {k : β → γ → β} {xs : List α} :
    Ends (xs.foldlM (fun acc x => g x >>= fun y => .ok (k acc y)) init) ↔
      ∀ x ∈ xs, Ends (g x) := by
  apply foldlM_ends_iff
  intro acc x
  exact ends_bind_ok

theorem mapM_ends {γ : Type} {g : α → Except ε γ} {xs : List α} :
    Ends (xs.mapM g) ↔ ∀ x ∈ xs, Ends (g x) := by
  induction xs with
  | nil => simp [Ends, pure, Except.pure]
  | cons x xs ih =>
    rw [List.mapM_cons, ends_bind, List.forall_mem_cons, ← ih]
    constructor
    · rintro ⟨y, hy, hrest⟩
      obtain ⟨ys, hys, -⟩ := ends_bind.mp hrest
      exact ⟨⟨y, hy⟩, ys, hys⟩
    · rintro ⟨⟨y, hy⟩, ys, hys⟩
      refine ⟨y, hy, ends_bind.mpr ⟨ys, hys, ends_ok _⟩⟩

-- a loop that appends what each step finds has found exactly that
theorem mem_foldlM_append {γ δ : Type} {g : α → Except ε δ} {k : δ → List γ} {xs : List α}
    {out : List γ}
    (h : xs.foldlM (fun acc x => g x >>= fun d => .ok (acc ++ k d)) [] = .ok out) {y : γ} :
    y ∈ out ↔ ∃ x ∈ xs, ∃ d, g x = .ok d ∧ y ∈ k d := by
  refine foldlM_invariant (I := fun done acc =>
    y ∈ acc ↔ ∃ x ∈ done, ∃ d, g x = .ok d ∧ y ∈ k d) h (by simp) ?_
  intro done x rest acc next _ hacc hnext
  obtain ⟨d, hd, hout⟩ := bind_eq_ok.mp hnext
  rw [← Except.ok.inj hout, List.mem_append, hacc]
  simp only [List.mem_append, List.mem_singleton, or_and_right, exists_or, exists_eq_left, hd,
    Except.ok.injEq, exists_eq_left']

theorem foldlM_collect {γ : Type} {f : List γ → α → Except ε (List γ)} {g : α → List γ}
    {xs : List α} (init : List γ) (h : ∀ x ∈ xs, ∀ acc, f acc x = .ok (acc ++ g x)) :
    xs.foldlM f init = .ok (init ++ xs.flatMap g) := by
  induction xs generalizing init with
  | nil => simp [pure, Except.pure]
  | cons x xs ih =>
    rw [List.foldlM_cons, h x (by simp), ok_bind, ih _ (fun y hy => h y (by simp [hy]))]
    simp

theorem foldlM_flatMap {γ : Type} {g : γ → List α} {xs : List γ} :
    (xs.flatMap g).foldlM f init = xs.foldlM (fun acc x => (g x).foldlM f acc) init := by
  induction xs generalizing init with
  | nil => rfl
  | cons x xs ih =>
    rw [List.flatMap_cons, List.foldlM_append, List.foldlM_cons]
    exact congrArg _ (funext fun acc => ih)

theorem foldlM_unchanged {xs : List α} (h : ∀ x ∈ xs, f init x = .ok init) :
    xs.foldlM f init = .ok init := by
  induction xs with
  | nil => rfl
  | cons x xs ih =>
    rw [List.foldlM_cons, h x List.mem_cons_self, ok_bind]
    exact ih (fun y hy => h y (List.mem_cons_of_mem _ hy))

theorem flatMap_ite {γ : Type} (xs : List α) (p : α → Bool) (g : α → γ) :
    xs.flatMap (fun x => if p x then [g x] else []) = (xs.filter p).map g := by
  induction xs with
  | nil => rfl
  | cons x xs ih => cases hx : p x <;> simp [hx, ih]

theorem allM_append {p : α → Except ε Bool} {xs ys : List α} :
    (xs ++ ys).allM p = xs.allM p >>= fun b => if b = true then ys.allM p else .ok false := by
  induction xs with
  | nil => rfl
  | cons x xs ih =>
    rw [List.cons_append, List.allM_cons, List.allM_cons, ih]
    cases p x with
    | error e => rfl
    | ok b => cases b <;> rfl

theorem allM_map {γ : Type} {p : α → Except ε Bool} {g : γ → α} {xs : List γ} :
    (xs.map g).allM p = xs.allM (fun x => p (g x)) := by
  induction xs with
  | nil => rfl
  | cons x xs ih => rw [List.map_cons, List.allM_cons, List.allM_cons, ih]

theorem allM_eq_true {p : α → Except ε Bool} {xs : List α} :
    xs.allM p = .ok true ↔ ∀ x ∈ xs, p x = .ok true := by
  induction xs with
  | nil => simp [pure, Except.pure]
  | cons x xs ih =>
    rw [List.allM_cons, bind_eq_ok, List.forall_mem_cons, ← ih]
    constructor
    · rintro ⟨b, hb, hrest⟩
      cases b with
      | true => exact ⟨hb, by simpa using hrest⟩
      | false => simp [pure, Except.pure] at hrest
    · rintro ⟨hx, hrest⟩
      exact ⟨true, hx, by simpa using hrest⟩

theorem allM_avoids {e : ε} {p : α → Except ε Bool} {xs : List α}
    (h : ∀ x ∈ xs, Avoids e (p x)) : Avoids e (xs.allM p) := by
  induction xs with
  | nil => exact avoids_ok e true
  | cons x xs ih =>
    rw [List.allM_cons]
    refine avoids_bind (h x (List.mem_cons_self ..)) (fun b _ => ?_)
    cases b with
    | false => exact avoids_ok e false
    | true => exact ih (fun y hy => h y (List.mem_cons_of_mem _ hy))

-- every element that the earlier ones let through has E
def Reached (H E : α → Prop) : List α → Prop
  | [] => True
  | x :: xs => E x ∧ (H x → Reached H E xs)

theorem ends_if {p : Except ε Bool} {q : Except ε Bool} :
    Ends (p >>= fun b => if b = true then q else pure false) ↔
      Ends p ∧ (p = .ok true → Ends q) := by
  rw [ends_bind]
  constructor
  · rintro ⟨b, rfl, hb⟩
    refine ⟨ends_ok b, fun htrue => ?_⟩
    rw [Except.ok.inj htrue] at hb
    exact hb
  · rintro ⟨⟨b, rfl⟩, hq⟩
    cases b with
    | false => exact ⟨false, rfl, ends_ok false⟩
    | true => exact ⟨true, rfl, hq rfl⟩

theorem allM_zipIdx_eq_true {p : α × Nat → Except ε Bool} {H : α → Prop} {xs : List α} {n : Nat}
    (hH : ∀ x ∈ xs, ∀ i, p (x, i) = .ok true ↔ H x) :
    (xs.zipIdx n).allM p = .ok true ↔ ∀ x ∈ xs, H x := by
  rw [allM_eq_true]
  constructor
  · intro h x hx
    obtain ⟨i, hi⟩ := List.mem_iff_getElem?.mp hx
    exact (hH x hx (n + i)).mp (h _ (List.mk_add_mem_zipIdx_iff_getElem?.mpr hi))
  · rintro h ⟨x, i⟩ hxi
    have hx : x ∈ xs := List.fst_mem_of_mem_zipIdx hxi
    exact (hH x hx i).mpr (h x hx)

theorem allM_zipIdx_ends {p : α × Nat → Except ε Bool} {H E : α → Prop} {xs : List α} {n : Nat}
    (hH : ∀ x ∈ xs, ∀ i, p (x, i) = .ok true ↔ H x) (hE : ∀ x ∈ xs, ∀ i, Ends (p (x, i)) ↔ E x) :
    Ends ((xs.zipIdx n).allM p) ↔ Reached H E xs := by
  induction xs generalizing n with
  | nil => simp [Ends, Reached, pure, Except.pure]
  | cons x xs ih =>
    rw [List.zipIdx_cons, List.allM_cons, ends_if, hE x (by simp), hH x (by simp),
      ih (fun y hy => hH y (by simp [hy])) (fun y hy => hE y (by simp [hy]))]
    rfl

-- a loop that asks for C at some elements and skips the others
theorem allM_ends_of_skip {p : α → Except ε Bool} {Q : α → Prop} {C : Prop} {xs : List α}
    (hskip : ∀ x ∈ xs, ¬ Q x → p x = .ok true) (hC : ∀ x ∈ xs, Q x → (Ends (p x) ↔ C)) :
    Ends (xs.allM p) ↔ ((∃ x ∈ xs, Q x) → C) := by
  induction xs with
  | nil => simp [Ends, pure, Except.pure]
  | cons x xs ih =>
    rw [List.allM_cons, ends_if, ih (fun y hy => hskip y (by simp [hy]))
      (fun y hy => hC y (by simp [hy]))]
    by_cases hx : Q x
    · rw [hC x (by simp) hx]
      constructor
      · exact fun h _ => h.1
      · intro h
        have hc : C := h ⟨x, by simp, hx⟩
        exact ⟨hc, fun _ _ => hc⟩
    · rw [hskip x (by simp) hx]
      simp [hx]

theorem allM_ends_of_const {p : α → Except ε Bool} {xs : List α} {C : Prop}
    (h : ∀ x, Ends (p x) ↔ C) : Ends (xs.allM p) ↔ xs = [] ∨ C := by
  rw [allM_ends_of_skip (Q := fun _ => True) (by simp) (fun x _ _ => h x)]
  cases xs <;> simp

-- a loop over positions, each of which looks up what stands at the same place
theorem mapM_zipIdx {γ δ : Type} {g : α → β} {k : α → γ} {F : β × Nat → Except δ γ}
    {xs : List α} {start : Nat} (h : ∀ i x, xs[i]? = some x → F (g x, start + i) = .ok (k x)) :
    ((xs.map g).zipIdx start).mapM F = .ok (xs.map k) := by
  induction xs generalizing start with
  | nil => rfl
  | cons x xs ih =>
    have hx : F (g x, start) = .ok (k x) := h 0 x rfl
    have hxs : ((xs.map g).zipIdx (start + 1)).mapM F = .ok (xs.map k) := by
      refine ih (fun i y hy => ?_)
      rw [Nat.add_assoc, Nat.add_comm 1]
      exact h (i + 1) y hy
    rw [List.map_cons, List.zipIdx_cons, List.mapM_cons, hx, hxs]
    rfl

end FogFlow.Loop
