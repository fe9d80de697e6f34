import Mathlib.Data.Set.Image
import Mathlib.Order.Defs.LinearOrder

namespace FogFlow.Preemption

variable {T U L : Type*} [LinearOrder L] {exclusive : T → Prop} {level : T → L}

-- t is due among S when no exclusive member of S has the right to keep it waiting
def Due (exclusive : T → Prop) (level : T → L) (S : Set T) (t : T) : Prop :=
  ∀ e ∈ S, exclusive e → exclusive t ∧ level e ≤ level t

theorem due_insert {S : Set T} {x t : T} :
    Due exclusive level (insert x S) t ↔
      (exclusive x → exclusive t ∧ level x ≤ level t) ∧ Due exclusive level S t := by
  simp [Due]

theorem due_insert_self {S : Set T} {x : T} :
    Due exclusive level (insert x S) x ↔ Due exclusive level S x := by
  rw [due_insert]
  exact and_iff_right (fun hx => ⟨hx, le_refl _⟩)

theorem due_of_none_exclusive {S : Set T} {t : T} (h : ∀ e ∈ S, ¬ exclusive e) :
    Due exclusive level S t :=
  fun e he hx => absurd hx (h e he)

theorem due_insert_of_not_exclusive {S : Set T} {x t : T} (hx : ¬ exclusive x) :
    Due exclusive level (insert x S) t ↔ Due exclusive level S t := by
  rw [due_insert]
  exact and_iff_right (fun h => absurd h hx)

-- a member that stays and was due before decides who is due after x has gone
theorem due_insert_of_due {S : Set T} {x e t : T} (he : e ∈ S) (hex : exclusive e)
    (hdue : Due exclusive level (insert x S) e) :
    Due exclusive level (insert x S) t ↔ Due exclusive level S t := by
  rw [due_insert]
  refine and_iff_right_of_imp (fun ht hx => ?_)
  obtain ⟨hxt, hle⟩ := ht e he hex
  exact ⟨hxt, ((due_insert.mp hdue).1 hx).2.trans hle⟩

theorem due_image {exclusive' : U → Prop} {level' : U → L} {f : T → U} {S : Set T} {t : T}
    (hx : ∀ t, exclusive' (f t) ↔ exclusive t) (hl : ∀ t, level' (f t) = level t) :
    Due exclusive' level' (f '' S) (f t) ↔ Due exclusive level S t := by
  simp [Due, hx, hl]

end FogFlow.Preemption
