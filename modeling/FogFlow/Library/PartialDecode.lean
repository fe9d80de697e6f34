import Mathlib.Data.List.Forall2

namespace FogFlow.PartialDecode

variable {ι α β σ τ : Type}

-- what a decoder has stored when it returns: it goes on after a part that does not fit its field,
-- and the error of a decoder that a type brings along ends it
structure Decoded (α : Type) where
  value : α
  mismatched : Bool
  stopped : Bool

namespace Decoded

def done (a : α) : Decoded α := ⟨a, false, false⟩

def mismatch (a : α) : Decoded α := ⟨a, true, false⟩

def stop (a : α) : Decoded α := ⟨a, false, true⟩

def ofOption (old : α) : Option α → Decoded α
  | some a => done a
  | none => mismatch old

def map (f : α → β) (d : Decoded α) : Decoded β := ⟨f d.value, d.mismatched, d.stopped⟩

def failed (d : Decoded α) : Bool := d.mismatched || d.stopped

@[simp] theorem value_done (a : α) : (done a).value = a := rfl

@[simp] theorem stopped_done (a : α) : (done a).stopped = false := rfl

@[simp] theorem failed_done (a : α) : (done a).failed = false := rfl

@[simp] theorem map_done (f : α → β) (a : α) : (done a).map f = done (f a) := rfl

@[simp] theorem value_map (f : α → β) (d : Decoded α) : (d.map f).value = f d.value := rfl

@[simp] theorem stopped_map (f : α → β) (d : Decoded α) : (d.map f).stopped = d.stopped := rfl

@[simp] theorem ofOption_some (old a : α) : ofOption old (some a) = done a := rfl

@[simp] theorem stopped_ofOption (old : α) (o : Option α) : (ofOption old o).stopped = false := by
  cases o <;> rfl

-- the decoder comes to the end, whatever did not fit on the way
def Reaches (d : Decoded α) (a : α) : Prop := d.value = a ∧ d.stopped = false

theorem reaches_done (a : α) : Reaches (done a) a := ⟨rfl, rfl⟩

@[simp] theorem reaches_done_iff {a b : α} : Reaches (done a) b ↔ a = b := by simp [Reaches]

theorem Reaches.map {d : Decoded α} {a : α} (h : Reaches d a) (f : α → β) :
    Reaches (d.map f) (f a) :=
  ⟨congrArg f h.1, h.2⟩

end Decoded

open Decoded

-- the members of an object one after the other
def members (step : σ → ι → Decoded σ) (s : σ) : List ι → Decoded σ
  | [] => done s
  | x :: xs =>
      if (step s x).stopped then step s x
      else
        ⟨(members step (step s x).value xs).value,
          (step s x).mismatched || (members step (step s x).value xs).mismatched,
          (members step (step s x).value xs).stopped⟩

-- the elements of an array, the last one as far as its decoder came
def items (decode : ι → Decoded α) : List ι → Decoded (List α)
  | [] => done []
  | x :: xs =>
      if (decode x).stopped then (decode x).map (fun a => [a])
      else
        ⟨(decode x).value :: (items decode xs).value,
          (decode x).mismatched || (items decode xs).mismatched, (items decode xs).stopped⟩

section Members

variable {step : σ → ι → Decoded σ} {other : τ → ι → Decoded τ} {s s' : σ} {x : ι} {xs : List ι}

@[simp] theorem members_nil : members step s [] = done s := rfl

theorem members_cons_of_done (h : step s x = done s') :
    members step s (x :: xs) = members step s' xs := by
  rw [members, h]
  simp only [done, Bool.false_eq_true, if_false, Bool.false_or]

theorem members_cons_of_reaches (h : Reaches (step s x) s') {out : σ} :
    Reaches (members step s (x :: xs)) out ↔ Reaches (members step s' xs) out := by
  rw [members, if_neg (by simp [h.2]), h.1]
  exact Iff.rfl

-- two decoders that both reach the end of the object keep a relation that each member keeps
theorem members_related {R : σ → τ → Prop} (hstep : ∀ s t x, R s t →
      (step s x).stopped = false → (other t x).stopped = false →
      R (step s x).value (other t x).value) {t : τ} (h : R s t)
    (hs : (members step s xs).stopped = false) (ht : (members other t xs).stopped = false) :
    R (members step s xs).value (members other t xs).value := by
  induction xs generalizing s t with
  | nil => exact h
  | cons x xs ih =>
    rw [members] at hs ht
    split_ifs at hs ht with hxs hxt
    · exact absurd hxs (by simp [hs])
    · exact absurd hxs (by simp [hs])
    · exact absurd ht (by simp [*])
    · have hnext := hstep s t x h (Bool.eq_false_iff.mpr hxs) (Bool.eq_false_iff.mpr ‹_›)
      have hrest := ih hnext hs ht
      rw [members, if_neg hxs, members, if_neg ‹_›]
      exact hrest

end Members

section Items

variable {decode : ι → Decoded α} {other : ι → Decoded β} {xs : List ι}

theorem items_map_of_done {g : τ → ι} {f : τ → α} {ts : List τ}
    (h : ∀ t ∈ ts, decode (g t) = done (f t)) : items decode (ts.map g) = done (ts.map f) := by
  induction ts with
  | nil => rfl
  | cons t ts ih =>
    rw [List.map_cons, items, h t (by simp), ih (fun t' ht' => h t' (by simp [ht']))]
    rfl

theorem items_map_of_reaches {g : τ → ι} {f : τ → α} {ts : List τ}
    (h : ∀ t ∈ ts, Reaches (decode (g t)) (f t)) : Reaches (items decode (ts.map g)) (ts.map f) := by
  induction ts with
  | nil => exact reaches_done []
  | cons t ts ih =>
    obtain ⟨hvalue, hstopped⟩ := h t (by simp)
    obtain ⟨hvalues, hrest⟩ := ih (fun t' ht' => h t' (by simp [ht']))
    rw [List.map_cons, items, if_neg (by simp [hstopped])]
    exact ⟨by rw [hvalue, hvalues, List.map_cons], hrest⟩

theorem forall₂_items {R : α → β → Prop} (hdecode : ∀ x ∈ xs, (decode x).stopped = false →
      (other x).stopped = false → R (decode x).value (other x).value)
    (hs : (items decode xs).stopped = false) (ht : (items other xs).stopped = false) :
    List.Forall₂ R (items decode xs).value (items other xs).value := by
  induction xs with
  | nil => exact .nil
  | cons x xs ih =>
    rw [items] at hs ht
    split_ifs at hs ht with hxs hxt
    · exact absurd hxs (by simpa using hs)
    · exact absurd hxs (by simpa using hs)
    · exact absurd ‹(other x).stopped = true› (by simpa using ht)
    · rw [items, if_neg hxs, items, if_neg ‹_›]
      refine .cons ?_ (ih (fun y hy => hdecode y (by simp [hy])) hs ht)
      exact hdecode x (by simp) (Bool.eq_false_iff.mpr hxs) (Bool.eq_false_iff.mpr ‹_›)

end Items

end FogFlow.PartialDecode
