import Mathlib.Data.List.Nodup
import Mathlib.Data.List.Pairwise

namespace FogFlow.Launching

variable {γ : Type}

-- the steps of the operations that start and stop what one slot holds
inductive Op (γ : Type) where
  | start
  | register (c : γ)
  | lookUp
  | stop (c : γ)
  | cleanUp (c : γ)
deriving DecidableEq

def Op.launches : Op γ → Bool
  | .start => true
  | .register _ => true
  | _ => false

def Op.opened : Op γ → Option γ
  | .stop c => some c
  | .cleanUp c => some c
  | _ => none

structure Slot (γ : Type) where
  entry : Option γ
  live : List γ
  ops : List (Op γ)

-- carried out one after the other, the operations launch into an empty slot and end as wanted
def Settles (wanted : Bool) : Bool → List Bool → Prop
  | present, [] => present = wanted
  | present, true :: rest => present = false ∧ Settles wanted true rest
  | _, false :: rest => Settles wanted false rest

-- an operation that is past its lookup comes first and is the only one
def OpenedFirst (ops : List (Op γ)) : Prop :=
  ops.Pairwise (fun a b => b.opened ≠ none → a.launches = false ∧ a.opened = none)

structure Good (wanted : Bool) (s : Slot γ) : Prop where
  settles : Settles wanted s.entry.isSome (s.ops.map Op.launches)
  first : OpenedFirst s.ops
  held : ∀ op ∈ s.ops, ∀ c, op.opened = some c → s.entry = some c
  live_iff : ∀ c, c ∈ s.live ↔ (s.entry = some c ∧ .cleanUp c ∉ s.ops) ∨ .register c ∈ s.ops
  single : s.live.Nodup
  apart : ∀ c, s.entry = some c → .register c ∉ s.ops
  distinct : s.ops.Pairwise (fun a b => ∀ c, a = .register c → b ≠ .register c)

theorem settles_push_launch {present : Bool} {fs : List Bool} (h : Settles false present fs) :
    Settles true present (fs ++ [true]) := by
  induction fs generalizing present with
  | nil => exact ⟨h, rfl⟩
  | cons f fs ih =>
    cases f with
    | true => exact ⟨h.1, ih h.2⟩
    | false => exact ih h

theorem settles_push_termination {wanted present : Bool} {fs : List Bool}
    (h : Settles wanted present fs) : Settles false present (fs ++ [false]) := by
  induction fs generalizing present with
  | nil => exact rfl
  | cons f fs ih =>
    cases f with
    | true => exact ⟨h.1, ih h.2⟩
    | false => exact ih h

theorem settles_launch_first {wanted present : Bool} {bs fs : List Bool}
    (h : Settles wanted present (bs ++ true :: fs)) (hbs : ∀ b ∈ bs, b = true) :
    bs = [] ∧ present = false ∧ Settles wanted true fs := by
  cases bs with
  | nil => exact ⟨rfl, h.1, h.2⟩
  | cons b bs =>
    obtain rfl := hbs b (by simp)
    cases bs with
    | nil => exact absurd h.2.1 (by simp)
    | cons b bs =>
      obtain rfl := hbs b (by simp)
      exact absurd h.2.1 (by simp)

theorem settles_termination_done {wanted present : Bool} {bs fs : List Bool}
    (h : Settles wanted present (bs ++ false :: fs)) (hbs : ∀ b ∈ bs, b = false) :
    Settles wanted false (bs ++ fs) := by
  induction bs generalizing present with
  | nil => exact h
  | cons b bs ih =>
    obtain rfl := hbs b (by simp)
    have hrest : Settles wanted false (bs ++ false :: fs) := h
    exact ih hrest (fun b hb => hbs b (by simp [hb]))

variable {wanted : Bool} {entry : Option γ} {live : List γ} {before after ops : List (Op γ)}
  {c : γ}

theorem good_empty : Good false (⟨none, [], []⟩ : Slot γ) :=
  ⟨rfl, .nil, by simp, by simp, .nil, by simp, .nil⟩

-- an operation that has not begun holds nothing yet
theorem good_push {wanted' : Bool} {op : Op γ} (h : Good wanted ⟨entry, live, ops⟩)
    (hopened : op.opened = none) (hregister : ∀ c, op ≠ .register c)
    (hsettles : Settles wanted' entry.isSome (ops.map Op.launches ++ [op.launches])) :
    Good wanted' ⟨entry, live, ops ++ [op]⟩ where
  settles := by
    rw [List.map_append]
    exact hsettles
  first := List.pairwise_append.mpr ⟨h.first, List.pairwise_singleton _ _, by
    intro a ha b hb hne
    rw [List.mem_singleton.mp hb] at hne
    exact absurd hopened hne⟩
  held o ho c hc := by
    rcases List.mem_append.mp ho with ho | ho
    · exact h.held o ho c hc
    · rw [List.mem_singleton.mp ho, hopened] at hc
      cases hc
  live_iff c := by
    have hclean : .cleanUp c ≠ op := by
      rintro rfl
      cases hopened
    simpa [hclean, (hregister c).symm] using h.live_iff c
  single := h.single
  apart c hc := by simpa [(hregister c).symm] using h.apart c hc
  distinct := List.pairwise_append.mpr ⟨h.distinct, List.pairwise_singleton _ _, by
    intro a ha b hb c _
    rw [List.mem_singleton.mp hb]
    exact hregister c⟩

theorem good_push_launch (h : Good false ⟨entry, live, ops⟩) :
    Good true ⟨entry, live, ops ++ [.start]⟩ :=
  good_push h rfl (by simp) (settles_push_launch h.settles)

theorem good_push_termination (h : Good wanted ⟨entry, live, ops⟩) :
    Good false ⟨entry, live, ops ++ [.lookUp]⟩ :=
  good_push h rfl (by simp) (settles_push_termination h.settles)

theorem pairwise_insert {α : Type} {R : α → α → Prop} {xs ys : List α} {a : α} :
    (xs ++ a :: ys).Pairwise R ↔
      (xs ++ ys).Pairwise R ∧ (∀ x ∈ xs, R x a) ∧ ∀ y ∈ ys, R a y := by
  simp only [List.pairwise_append, List.pairwise_cons, List.mem_cons, forall_eq_or_imp]
  constructor
  · rintro ⟨hxs, ⟨hay, hys⟩, hcross⟩
    exact ⟨⟨hxs, hys, fun x hx => (hcross x hx).2⟩, fun x hx => (hcross x hx).1, hay⟩
  · rintro ⟨⟨hxs, hys, hcross⟩, hxa, hay⟩
    exact ⟨hxs, ⟨hay, hys⟩, fun x hx => ⟨hxa x hx, hcross x hx⟩⟩

theorem mem_insert {α : Type} {xs ys : List α} {a x : α} (h : x ∈ xs ++ ys) : x ∈ xs ++ a :: ys := by
  rcases List.mem_append.mp h with h | h
  · exact List.mem_append_left _ h
  · exact List.mem_append_right _ (List.mem_cons_of_mem a h)

theorem good_start (h : Good wanted ⟨entry, live, before ++ .start :: after⟩) (hlive : c ∉ live)
    (hentry : entry ≠ some c) (hregister : .register c ∉ before ++ after) :
    Good wanted ⟨entry, live ++ [c], before ++ .register c :: after⟩ where
  settles := by simpa [Op.launches] using h.settles
  first := by
    obtain ⟨hrest, -, hafter⟩ := pairwise_insert.mp h.first
    exact pairwise_insert.mpr ⟨hrest, by simp [Op.opened], hafter⟩
  held op hop d hd := by
    rcases List.mem_append.mp hop with hop | hop
    · exact h.held op (List.mem_append_left _ hop) d hd
    · rcases List.mem_cons.mp hop with rfl | hop
      · cases hd
      · exact h.held op (by simp [hop]) d hd
  live_iff d := by
    have hd := h.live_iff d
    simp only [List.mem_append, List.mem_cons, reduceCtorEq, false_or] at hd ⊢
    rw [hd]
    simp only [Op.register.injEq, List.not_mem_nil, or_false, or_assoc]
    rw [or_comm (b := d = c)]
  single := h.single.append (List.nodup_singleton c) (by simpa using hlive)
  apart d hd := by
    have hold := h.apart d hd
    have hne : d ≠ c := by
      rintro rfl
      exact hentry hd
    simpa [hne] using hold
  distinct := by
    obtain ⟨hrest, -, -⟩ := pairwise_insert.mp h.distinct
    refine pairwise_insert.mpr ⟨hrest, fun x hx d hd => ?_, fun y hy d hd => ?_⟩
    · rintro hdc
      obtain rfl := Op.register.inj hdc
      exact hregister (List.mem_append_left _ (hd ▸ hx))
    · obtain rfl := Op.register.inj hd
      rintro rfl
      exact hregister (List.mem_append_right _ hy)

-- nothing that comes after a pending launch is past its lookup
theorem not_opened_of_launch {op : Op γ} {opened : Op γ}
    (h : OpenedFirst (before ++ op :: after)) (hop : op.launches = true) (hmem : opened ∈ after) :
    opened.opened = none := by
  by_contra hne
  have hlaunch := ((pairwise_insert.mp h).2.2 opened hmem hne).1
  rw [hop] at hlaunch
  cases hlaunch

theorem good_register (h : Good wanted ⟨entry, live, before ++ .register c :: after⟩)
    (hbefore : ∀ op ∈ before, op.launches = true) :
    Good wanted ⟨some c, live, before ++ after⟩ := by
  have hsettles := h.settles
  rw [List.map_append, List.map_cons] at hsettles
  obtain ⟨hnil, hpresent, hrest⟩ := settles_launch_first hsettles (by simpa using hbefore)
  obtain rfl : before = [] := by simpa using hnil
  obtain rfl : entry = none := by simpa using hpresent
  have hopened (op : Op γ) (hop : op ∈ after) : op.opened = none :=
    not_opened_of_launch h.first rfl hop
  obtain ⟨hfirst, -, -⟩ := pairwise_insert.mp h.first
  obtain ⟨hdistinct, -, hother⟩ := pairwise_insert.mp h.distinct
  have hother' : .register c ∉ after := fun hmem => hother _ hmem c rfl rfl
  refine ⟨hrest, hfirst, fun op hop d hd => ?_, fun d => ?_, h.single, fun d hd => ?_, hdistinct⟩
  · rw [hopened op hop] at hd
    cases hd
  · have hd := h.live_iff d
    have hclean : .cleanUp d ∉ after := fun hmem => by simpa [Op.opened] using hopened _ hmem
    simp only [List.nil_append, List.mem_cons, Op.register.injEq, reduceCtorEq, false_and,
      false_or] at hd ⊢
    rw [hd]
    simp [hclean, eq_comm]
  · obtain rfl := Option.some.inj hd
    exact hother'

theorem good_found_none (h : Good wanted ⟨none, live, before ++ .lookUp :: after⟩)
    (hbefore : ∀ op ∈ before, op.launches = false) :
    Good wanted ⟨none, live, before ++ after⟩ := by
  have hsettles := h.settles
  rw [List.map_append, List.map_cons] at hsettles
  refine ⟨?_, (pairwise_insert.mp h.first).1, fun op hop => h.held op (mem_insert hop),
    fun d => ?_, h.single, by simp, (pairwise_insert.mp h.distinct).1⟩
  · rw [List.map_append]
    exact settles_termination_done hsettles (by simpa using hbefore)
  · simpa using h.live_iff d

theorem good_found (h : Good wanted ⟨some c, live, before ++ .lookUp :: after⟩)
    (hbefore : ∀ op ∈ before, op.launches = false)
    (hopened : ∀ op ∈ before ++ after, op.opened = none) :
    Good wanted ⟨some c, live, before ++ .stop c :: after⟩ where
  settles := by simpa [Op.launches] using h.settles
  first := by
    refine pairwise_insert.mpr ⟨(pairwise_insert.mp h.first).1, fun x hx _ => ?_, fun y hy hne => ?_⟩
    · exact ⟨hbefore x hx, hopened x (List.mem_append_left _ hx)⟩
    · exact absurd (hopened y (List.mem_append_right _ hy)) hne
  held op hop d hd := by
    rcases List.mem_append.mp hop with hop | hop
    · exact h.held op (List.mem_append_left _ hop) d hd
    · rcases List.mem_cons.mp hop with rfl | hop
      · exact hd
      · exact h.held op (by simp [hop]) d hd
  live_iff d := by simpa using h.live_iff d
  single := h.single
  apart d hd := by simpa using h.apart d hd
  distinct := by
    obtain ⟨hrest, -, -⟩ := pairwise_insert.mp h.distinct
    exact pairwise_insert.mpr ⟨hrest, by simp, by simp⟩

theorem mem_live_of_stop (h : Good wanted ⟨entry, live, before ++ .stop c :: after⟩) : c ∈ live := by
  obtain ⟨-, hbefore, hafter⟩ := pairwise_insert.mp h.first
  refine (h.live_iff c).mpr (.inl ⟨h.held (.stop c) (by simp) c rfl, fun hmem => ?_⟩)
  rcases List.mem_append.mp hmem with hmem | hmem
  · have hnone := (hbefore _ hmem (by simp [Op.opened])).2
    cases hnone
  · rcases List.mem_cons.mp hmem with heq | hmem
    · cases heq
    · have hnone := (hafter _ hmem (by simp [Op.opened])).2
      cases hnone

theorem good_stop [DecidableEq γ] (h : Good wanted ⟨entry, live, before ++ .stop c :: after⟩) :
    Good wanted ⟨entry, live.filter (fun d => d != c), before ++ .cleanUp c :: after⟩ where
  settles := by simpa [Op.launches] using h.settles
  first := by
    obtain ⟨hrest, hbefore, hafter⟩ := pairwise_insert.mp h.first
    exact pairwise_insert.mpr ⟨hrest, hbefore, hafter⟩
  held op hop d hd := by
    rcases List.mem_append.mp hop with hop | hop
    · exact h.held op (List.mem_append_left _ hop) d hd
    · rcases List.mem_cons.mp hop with rfl | hop
      · exact h.held (.stop c) (by simp) d hd
      · exact h.held op (by simp [hop]) d hd
  live_iff d := by
    have hentry : entry = some c := h.held (.stop c) (by simp) c rfl
    have happ := h.apart c hentry
    have hd := h.live_iff d
    simp only [List.mem_filter, bne_iff_ne, ne_eq, List.mem_append, List.mem_cons, reduceCtorEq,
      false_or, hentry, Option.some.injEq, Op.cleanUp.injEq] at hd happ ⊢
    rw [hd]
    by_cases hdc : d = c
    · subst hdc
      simp [happ]
    · simp [hdc, Ne.symm hdc]
  single := h.single.filter _
  apart d hd := by simpa using h.apart d hd
  distinct := by
    obtain ⟨hrest, -, -⟩ := pairwise_insert.mp h.distinct
    exact pairwise_insert.mpr ⟨hrest, by simp, by simp⟩

theorem good_cleanUp (h : Good wanted ⟨entry, live, before ++ .cleanUp c :: after⟩) :
    Good wanted ⟨none, live, before ++ after⟩ := by
  have hentry : entry = some c := h.held (.cleanUp c) (by simp) c rfl
  obtain ⟨hfirst, hbefore, hafter⟩ := pairwise_insert.mp h.first
  have hopened (op : Op γ) (hop : op ∈ before ++ after) : op.opened = none := by
    rcases List.mem_append.mp hop with hop | hop
    · exact (hbefore op hop (by simp [Op.opened])).2
    · by_contra hne
      have hnone := (hafter op hop hne).2
      cases hnone
  have hsettles := h.settles
  rw [List.map_append, List.map_cons] at hsettles
  refine ⟨?_, hfirst, fun op hop d hd => ?_, fun d => ?_, h.single, by simp,
    (pairwise_insert.mp h.distinct).1⟩
  · rw [List.map_append]
    refine settles_termination_done hsettles (fun b hb => ?_)
    obtain ⟨op, hop, rfl⟩ := List.mem_map.mp hb
    exact (hbefore op hop (by simp [Op.opened])).1
  · rw [hopened op hop] at hd
    cases hd
  · have hd := h.live_iff d
    simp only [hentry, Option.some.injEq, List.mem_append, List.mem_cons, reduceCtorEq, false_or,
      Op.cleanUp.injEq, false_and] at hd ⊢
    rw [hd]
    constructor
    · rintro (⟨rfl, hno⟩ | hreg)
      · simp at hno
      · exact hreg
    · exact Or.inr

theorem good_idle (h : Good wanted ⟨entry, live, []⟩) :
    live.length = if wanted = true then 1 else 0 := by
  have hsettles : entry.isSome = wanted := h.settles
  have hlive : ∀ c, c ∈ live ↔ entry = some c := by simpa using h.live_iff
  cases entry with
  | none =>
    have hnil : live = [] := List.eq_nil_iff_forall_not_mem.mpr (fun c hc => by
      simpa using (hlive c).mp hc)
    rw [hnil]
    simp [← hsettles]
  | some c =>
    have hperm : live.Perm [c] := by
      rw [List.perm_ext_iff_of_nodup h.single (List.nodup_singleton c)]
      intro d
      rw [hlive d, List.mem_singleton, Option.some.injEq, eq_comm]
    rw [hperm.length_eq]
    simp [← hsettles]

end FogFlow.Launching
