import Mathlib.Data.List.Basic
import Mathlib.Data.List.Perm.Basic

namespace FogFlow

-- a queue between publishers that may run on their own and a consumer that handles concurrently
structure Bus (M : Type) where
  publishing : List M
  queue : List M
  handling : List M
deriving DecidableEq, Repr

namespace Bus

variable {M : Type} {bound : M → Bool} {b b' : Bus M} {m : M}

def empty : Bus M := ⟨[], [], []⟩

-- a goroutine is started that publishes the message later
def spawn (b : Bus M) (m : M) : Bus M := { b with publishing := b.publishing ++ [m] }

-- the exchange puts a message into the queue if its key is bound to it
def post (bound : M → Bool) (b : Bus M) (m : M) : Bus M :=
  { b with queue := b.queue ++ [m].filter bound }

def publish [DecidableEq M] (bound : M → Bool) (b : Bus M) (m : M) : Option (Bus M) :=
  if m ∈ b.publishing then some (post bound { b with publishing := b.publishing.erase m } m)
  else none

def consume (prefetchCount : Nat) (b : Bus M) : Option (Bus M) :=
  match b.queue with
  | [] => none
  | m :: rest =>
      if b.handling.length < prefetchCount then
        some { b with queue := rest, handling := b.handling ++ [m] }
      else none

def ack [DecidableEq M] (b : Bus M) (m : M) : Option (Bus M) :=
  if m ∈ b.handling then some { b with handling := b.handling.erase m } else none

def pending (bound : M → Bool) (b : Bus M) : List M :=
  b.publishing.filter bound ++ b.queue ++ b.handling

def Quiescent (b : Bus M) : Prop := b.publishing = [] ∧ b.queue = [] ∧ b.handling = []

instance (b : Bus M) : Decidable b.Quiescent := inferInstanceAs (Decidable (_ ∧ _ ∧ _))

@[simp] theorem pending_empty : pending bound (empty : Bus M) = [] := rfl

theorem Quiescent.pending_eq (h : b.Quiescent) : b.pending bound = [] := by
  obtain ⟨hp, hq, hh⟩ := h
  simp [pending, hp, hq, hh]

theorem pending_spawn (b : Bus M) (m : M) :
    ((b.spawn m).pending bound).Perm ([m].filter bound ++ b.pending bound) := by
  simp only [pending, spawn, List.filter_append, List.append_assoc]
  exact List.perm_append_comm_assoc _ _ _

theorem pending_post (b : Bus M) (m : M) :
    ((b.post bound m).pending bound).Perm ([m].filter bound ++ b.pending bound) := by
  have h : b.publishing.filter bound ++ (b.queue ++ ([m].filter bound ++ b.handling)) =
      (b.publishing.filter bound ++ b.queue) ++ ([m].filter bound ++ b.handling) := by simp
  simp only [pending, post, List.append_assoc]
  rw [h, ← List.append_assoc (b.publishing.filter bound) b.queue]
  exact List.perm_append_comm_assoc _ _ _

theorem pending_publish [DecidableEq M] (h : b.publish bound m = some b') :
    (b'.pending bound).Perm (b.pending bound) := by
  unfold publish at h
  split_ifs at h with hm
  obtain rfl := Option.some.inj h
  refine (pending_post _ m).trans ?_
  have hsplit : (b.publishing.filter bound).Perm
      ([m].filter bound ++ (b.publishing.erase m).filter bound) := by
    rw [← List.filter_append]
    exact (List.perm_cons_erase hm).filter bound
  simp only [pending, ← List.append_assoc]
  exact ((hsplit.symm.append_right _).append_right _)

theorem pending_consume {n : Nat} (h : b.consume n = some b') :
    (b'.pending bound).Perm (b.pending bound) := by
  unfold consume at h
  split at h
  · cases h
  · next rest hq =>
    split_ifs at h
    obtain rfl := Option.some.inj h
    simp only [pending, hq, List.append_assoc]
    refine List.Perm.append_left _ ?_
    rw [List.cons_append, ← List.append_assoc]
    exact List.perm_append_singleton _ _

theorem pending_ack [DecidableEq M] (h : b.ack m = some b') :
    (b.pending bound).Perm (m :: b'.pending bound) := by
  unfold ack at h
  split_ifs at h with hm
  obtain rfl := Option.some.inj h
  have hsplit := List.perm_cons_erase hm
  exact (hsplit.append_left _).trans List.perm_middle

end Bus

end FogFlow
