import Mathlib.Data.List.Induction
import Mathlib.Data.List.Nodup

namespace FogFlow.Leases

variable {κ ω : Type} [DecidableEq κ] [DecidableEq ω]

-- each key is assigned to at most one place at a time
inductive Op (κ ω : Type) where
  | assign (k : κ) (w : ω)
  | release (k : κ) (w : ω)

def Op.key : Op κ ω → κ
  | .assign k _ => k
  | .release k _ => k

def after (running : List (κ × ω)) : Op κ ω → List (κ × ω)
  | .assign k w => (k, w) :: running
  | .release k w => running.erase (k, w)

-- what has been assigned and not released, the last assignment first
def running (ops : List (Op κ ω)) : List (κ × ω) := ops.foldl after []

def Allowed (running : List (κ × ω)) : Op κ ω → Prop
  | .assign k _ => k ∉ running.map Prod.fst
  | .release k w => (k, w) ∈ running

inductive Proper : List (Op κ ω) → Prop
  | nil : Proper []
  | concat {ops : List (Op κ ω)} {op : Op κ ω} : Proper ops → Allowed (running ops) op →
      Proper (ops ++ [op])

def assigns (k : κ) (ops : List (Op κ ω)) : Nat :=
  ops.countP (fun op => match op with
    | .assign j _ => j = k
    | _ => false)

def releases (k : κ) (ops : List (Op κ ω)) : Nat :=
  ops.countP (fun op => match op with
    | .release j _ => j = k
    | _ => false)

def assignsTo (w : ω) (ops : List (Op κ ω)) : Nat :=
  ops.countP (fun op => match op with
    | .assign _ v => v = w
    | _ => false)

def releasesFrom (w : ω) (ops : List (Op κ ω)) : Nat :=
  ops.countP (fun op => match op with
    | .release _ v => v = w
    | _ => false)

def assignedTo (k : κ) : Op κ ω → Option ω
  | .assign j w => if j = k then some w else none
  | _ => none

def lastAssigned (k : κ) (ops : List (Op κ ω)) : Option ω := (ops.filterMap (assignedTo k)).getLast?

variable {ops : List (Op κ ω)} {op : Op κ ω} {k : κ} {w : ω}

omit [DecidableEq κ] in
theorem assignsTo_append (w : ω) (as bs : List (Op κ ω)) :
    assignsTo w (as ++ bs) = assignsTo w as + assignsTo w bs :=
  List.countP_append

omit [DecidableEq κ] in
theorem releasesFrom_append (w : ω) (as bs : List (Op κ ω)) :
    releasesFrom w (as ++ bs) = releasesFrom w as + releasesFrom w bs :=
  List.countP_append

@[simp] theorem running_nil : running ([] : List (Op κ ω)) = [] := rfl

@[simp] theorem running_concat (ops : List (Op κ ω)) (op : Op κ ω) :
    running (ops ++ [op]) = after (running ops) op := by
  simp [running]

theorem proper_concat_iff : Proper (ops ++ [op]) ↔ Proper ops ∧ Allowed (running ops) op := by
  constructor
  · intro h
    generalize heq : ops ++ [op] = all at h
    cases h with
    | nil => simp at heq
    | @concat ops' op' hp ha =>
      obtain ⟨rfl, hop⟩ := List.append_inj' heq rfl
      obtain rfl : op = op' := by simpa using hop
      exact ⟨hp, ha⟩
  · exact fun h => .concat h.1 h.2

theorem Proper.shorter {more : List (Op κ ω)} (h : Proper (ops ++ more)) : Proper ops := by
  induction more using List.reverseRecOn with
  | nil => simpa using h
  | append_singleton more op ih =>
    rw [← List.append_assoc, proper_concat_iff] at h
    exact ih h.1

theorem Proper.allowed {done rest : List (Op κ ω)} (h : Proper (done ++ op :: rest)) :
    Allowed (running done) op := by
  have hsplit : done ++ op :: rest = (done ++ [op]) ++ rest := by simp
  rw [hsplit] at h
  exact (proper_concat_iff.mp h.shorter).2

theorem Proper.keys_nodup (h : Proper ops) : ((running ops).map Prod.fst).Nodup := by
  induction h with
  | nil => exact List.nodup_nil
  | @concat ops op _ ha ih =>
    rw [running_concat]
    cases op with
    | assign k w => exact List.nodup_cons.mpr ⟨ha, ih⟩
    | release k w => exact ih.sublist (List.erase_sublist.map _)

theorem Proper.nodup (h : Proper ops) : (running ops).Nodup := List.Nodup.of_map _ h.keys_nodup

theorem Proper.unique (h : Proper ops) {v : ω} (hw : (k, w) ∈ running ops)
    (hv : (k, v) ∈ running ops) : w = v := by
  have hpair := List.inj_on_of_nodup_map h.keys_nodup hw hv rfl
  exact (Prod.mk.inj hpair).2

theorem Proper.mem_erase (h : Proper ops) {j : κ} {v : ω} (hw : (k, w) ∈ running ops) :
    (j, v) ∈ (running ops).erase (k, w) ↔ (j, v) ∈ running ops ∧ j ≠ k := by
  rw [h.nodup.mem_erase_iff, and_comm]
  refine and_congr_right (fun hv => ?_)
  constructor
  · rintro hne rfl
    exact hne (by rw [h.unique hw hv])
  · exact fun hne heq => hne (Prod.mk.inj heq).1

theorem Proper.count_key (h : Proper ops) (k : κ) :
    assigns k ops = releases k ops + ((running ops).map Prod.fst).count k := by
  induction h with
  | nil => rfl
  | @concat ops op hp ha ih =>
    rw [running_concat]
    simp only [assigns, releases, List.countP_append, List.countP_singleton] at ih ⊢
    cases op with
    | assign j w =>
      simp only [after, List.map_cons, List.count_cons, decide_eq_true_eq, beq_iff_eq,
        Bool.false_eq_true, if_false]
      omega
    | release j w =>
      have hperm : ((running ops).map Prod.fst).Perm
          (j :: ((running ops).erase (j, w)).map Prod.fst) :=
        (List.perm_cons_erase ha).map Prod.fst
      have hcount := hperm.count_eq k
      rw [List.count_cons] at hcount
      simp only [after, decide_eq_true_eq, beq_iff_eq, Bool.false_eq_true, if_false] at hcount ⊢
      omega

theorem Proper.count_place (h : Proper ops) (w : ω) :
    assignsTo w ops = releasesFrom w ops + (running ops).countP (fun e => e.2 = w) := by
  induction h with
  | nil => rfl
  | @concat ops op hp ha ih =>
    rw [running_concat]
    simp only [assignsTo, releasesFrom, List.countP_append, List.countP_singleton] at ih ⊢
    cases op with
    | assign j v =>
      simp only [after, List.countP_cons, decide_eq_true_eq, Bool.false_eq_true, if_false]
      omega
    | release j v =>
      have hcount := (List.perm_cons_erase ha).countP_eq (fun e => decide (e.2 = w))
      rw [List.countP_cons] at hcount
      simp only [after, decide_eq_true_eq, Bool.false_eq_true, if_false] at hcount ⊢
      omega

omit [DecidableEq ω] in
@[simp] theorem lastAssigned_nil (k : κ) : lastAssigned k ([] : List (Op κ ω)) = none := rfl

omit [DecidableEq ω] in
theorem lastAssigned_concat (ops : List (Op κ ω)) (op : Op κ ω) (k : κ) :
    lastAssigned k (ops ++ [op]) = (assignedTo k op).or (lastAssigned k ops) := by
  simp only [lastAssigned, List.filterMap_append, List.filterMap_cons, List.filterMap_nil]
  cases assignedTo k op <;> simp

theorem Proper.last_of_running (h : Proper ops) (hw : (k, w) ∈ running ops) :
    lastAssigned k ops = some w := by
  induction h with
  | nil => simp at hw
  | @concat ops op hp ha ih =>
    rw [running_concat] at hw
    rw [lastAssigned_concat]
    cases op with
    | assign j v =>
      rcases List.mem_cons.mp hw with heq | hw
      · obtain ⟨rfl, rfl⟩ := Prod.mk.inj heq
        simp [assignedTo]
      · have hne : ¬ j = k := fun hjk => ha (List.mem_map.mpr ⟨_, hw, hjk.symm⟩)
        simp [assignedTo, hne, ih hw]
    | release j v => simpa [assignedTo] using ih (List.mem_of_mem_erase hw)

def NotAssigned (k : κ) (ops : List (Op κ ω)) : Prop := ∀ w, Op.assign k w ∉ ops

omit [DecidableEq ω] in
theorem lastAssigned_append {more : List (Op κ ω)} (h : NotAssigned k more) :
    lastAssigned k (ops ++ more) = lastAssigned k ops := by
  have hnone : more.filterMap (assignedTo k) = [] := by
    rw [List.filterMap_eq_nil_iff]
    intro op hop
    cases op with
    | assign j v =>
      have hne : j ≠ k := by
        rintro rfl
        exact h v hop
      simp [assignedTo, hne]
    | release j v => rfl
  rw [lastAssigned, List.filterMap_append, hnone, List.append_nil, lastAssigned]

-- operations on other keys leave a key where it is
theorem mem_running_append {more : List (Op κ ω)} (h : ∀ op ∈ more, op.key ≠ k) :
    (k, w) ∈ running (ops ++ more) ↔ (k, w) ∈ running ops := by
  induction more using List.reverseRecOn with
  | nil => rw [List.append_nil]
  | append_singleton more op ih =>
    rw [← List.append_assoc, running_concat, ← ih (fun o ho => h o (List.mem_append_left _ ho))]
    have hne := h op (by simp)
    cases op with
    | assign j v =>
      have hother : (k, w) ≠ (j, v) := fun heq => hne (Prod.mk.inj heq).1.symm
      simp [after, hother]
    | release j v =>
      have hother : (k, w) ≠ (j, v) := fun heq => hne (Prod.mk.inj heq).1.symm
      exact List.mem_erase_of_ne hother

theorem mem_running_of_unreleased (ops : List (Op κ ω)) {rest : List (Op κ ω)}
    (h : Op.release k w ∉ rest) : (k, w) ∈ running (ops ++ Op.assign k w :: rest) := by
  induction rest using List.reverseRecOn with
  | nil => simp [after]
  | append_singleton rest op ih =>
    have hin := ih (fun hrest => h (List.mem_append_left _ hrest))
    have hsplit : ops ++ Op.assign k w :: (rest ++ [op]) =
        (ops ++ Op.assign k w :: rest) ++ [op] := by
      simp
    rw [hsplit, running_concat]
    cases op with
    | assign j v => exact List.mem_cons_of_mem _ hin
    | release j v =>
      refine (List.mem_erase_of_ne ?_).mpr hin
      intro heq
      obtain ⟨rfl, rfl⟩ := Prod.mk.inj heq
      exact h (by simp)

def releaseOf (e : κ × ω) : Op κ ω := .release e.1 e.2

theorem running_releases (ops : List (Op κ ω)) (rs : List (κ × ω)) :
    running (ops ++ rs.map releaseOf) = (running ops).diff rs := by
  rw [List.diff_eq_foldl, running, List.foldl_append, List.foldl_map]
  rfl

theorem proper_releases {rs : List (κ × ω)} (h : Proper ops) (hrun : ∀ e ∈ rs, e ∈ running ops)
    (hnd : rs.Nodup) : Proper (ops ++ rs.map releaseOf) := by
  induction rs using List.reverseRecOn with
  | nil => simpa using h
  | append_singleton rs e ih =>
    rw [List.nodup_append] at hnd
    have hbefore := ih (fun e he => hrun e (List.mem_append_left _ he)) hnd.1
    have hlast : e ∈ running (ops ++ rs.map releaseOf) := by
      rw [running_releases, h.nodup.mem_sdiff_iff]
      exact ⟨hrun e (by simp), fun hin => hnd.2.2 e hin e (by simp) rfl⟩
    rw [List.map_append, ← List.append_assoc]
    exact proper_concat_iff.mpr ⟨hbefore, hlast⟩

theorem Proper.assigns_le (h : Proper ops) (k : κ) : assigns k ops ≤ releases k ops + 1 := by
  have hcount := h.count_key k
  have hone := List.nodup_iff_count_le_one.mp h.keys_nodup k
  omega

-- a key that was assigned and is not running has been released by its last place
theorem Proper.released (h : Proper ops) (hlast : lastAssigned k ops = some w)
    (hnot : k ∉ (running ops).map Prod.fst) :
    ∃ before rest, ops = before ++ Op.release k w :: rest ∧ NotAssigned k rest := by
  induction h with
  | nil => simp at hlast
  | @concat ops op hp ha ih =>
    rw [running_concat] at hnot
    rw [lastAssigned_concat] at hlast
    cases op with
    | assign j v =>
      have hne : ¬ j = k := by
        rintro rfl
        exact hnot (by simp [after])
      have hnot' : k ∉ (running ops).map Prod.fst := fun hk => hnot (List.mem_cons_of_mem _ hk)
      obtain ⟨before, rest, rfl, hrest⟩ := ih (by simpa [assignedTo, hne] using hlast) hnot'
      refine ⟨before, rest ++ [.assign j v], by simp, fun u hu => ?_⟩
      rcases List.mem_append.mp hu with hu | hu
      · exact hrest u hu
      · exact hne (Op.assign.inj (List.mem_singleton.mp hu)).1.symm
    | release j v =>
      by_cases hjk : j = k
      · obtain rfl := hjk
        have hv := hp.last_of_running ha
        obtain rfl : v = w := Option.some.inj (hv.symm.trans (by simpa [assignedTo] using hlast))
        exact ⟨ops, [], rfl, by simp [NotAssigned]⟩
      · have hnot' : k ∉ (running ops).map Prod.fst := by
          intro hk
          obtain ⟨⟨_, u⟩, hu, rfl⟩ := List.mem_map.mp hk
          exact hnot (List.mem_map.mpr ⟨_, (hp.mem_erase ha).mpr ⟨hu, Ne.symm hjk⟩, rfl⟩)
        obtain ⟨before, rest, rfl, hrest⟩ := ih (by simpa [assignedTo] using hlast) hnot'
        exact ⟨before, rest ++ [.release j v], by simp, fun u hu => by simp [hrest u] at hu⟩

end FogFlow.Leases
