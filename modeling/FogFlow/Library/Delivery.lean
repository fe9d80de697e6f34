import Mathlib.Data.List.Basic
import Mathlib.Data.List.Pairwise

namespace FogFlow.Delivery

variable {α : Type*} {R R' : α → α → Prop} {delivered waiting rest fresh : List α} {m n : α}

-- messages that have arrived in order, with nothing left waiting that had to come before them
structure InOrder (R : α → α → Prop) (delivered waiting : List α) : Prop where
  arrived : delivered.Pairwise R
  left : ∀ m ∈ delivered, ∀ n ∈ waiting, R m n

theorem inOrder_nil : InOrder R [] waiting :=
  ⟨List.Pairwise.nil, fun m hm => by cases hm⟩

theorem InOrder.fewer (h : InOrder R delivered waiting) (hrest : ∀ n ∈ rest, n ∈ waiting) :
    InOrder R delivered rest :=
  ⟨h.arrived, fun m hm n hn => h.left m hm n (hrest n hn)⟩

-- the next one to arrive is one that nothing else has to wait for
theorem InOrder.deliver (h : InOrder R delivered waiting) (hn : n ∈ waiting)
    (hfirst : ∀ m ∈ waiting, R n m) (hrest : ∀ n ∈ rest, n ∈ waiting) :
    InOrder R (delivered ++ [n]) rest := by
  constructor
  · refine List.pairwise_append.mpr ⟨h.arrived, List.pairwise_singleton R n, fun m hm k hk => ?_⟩
    rw [List.mem_singleton.mp hk]
    exact h.left m hm n hn
  · intro m hm k hk
    rcases List.mem_append.mp hm with hm | hm
    · exact h.left m hm k (hrest k hk)
    · rw [List.mem_singleton.mp hm]
      exact hfirst k (hrest k hk)

theorem InOrder.send (h : InOrder R delivered waiting)
    (hfresh : ∀ m ∈ delivered, ∀ n ∈ fresh, R m n) : InOrder R delivered (waiting ++ fresh) := by
  refine ⟨h.arrived, fun m hm n hn => ?_⟩
  rcases List.mem_append.mp hn with hn | hn
  · exact h.left m hm n hn
  · exact hfresh m hm n hn

theorem InOrder.mono (h : InOrder R delivered waiting)
    (hR : ∀ m ∈ delivered, ∀ n, n ∈ delivered ∨ n ∈ waiting → R m n → R' m n) :
    InOrder R' delivered waiting :=
  ⟨h.arrived.imp_of_mem (fun hm hn hr => hR _ hm _ (Or.inl hn) hr),
    fun m hm n hn => hR m hm n (Or.inr hn) (h.left m hm n hn)⟩

-- among any of the messages the last one to arrive comes after all the others
theorem InOrder.last {p : α → Bool} (h : InOrder R delivered waiting) (hm : m ∈ delivered)
    (hp : p m = true) (hlast : (delivered.filter p).getLast? = some n) : m = n ∨ R m n := by
  obtain ⟨before, hsplit⟩ := List.getLast?_eq_some_iff.mp hlast
  have hmem : m ∈ delivered.filter p := List.mem_filter.mpr ⟨hm, hp⟩
  have hpairs : (delivered.filter p).Pairwise R := h.arrived.filter p
  rw [hsplit] at hmem hpairs
  rcases List.mem_append.mp hmem with hmem | hmem
  · exact Or.inr ((List.pairwise_append.mp hpairs).2.2 m hmem n List.mem_cons_self)
  · exact Or.inl (List.mem_singleton.mp hmem)

end FogFlow.Delivery
