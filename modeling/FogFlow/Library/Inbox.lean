import FogFlow.Library.Pool

namespace FogFlow.Inbox

variable {M K V : Type} [DecidableEq K] {key : M → K} {apply : Option V → M → Option V}
  {current : Option V} {underWay sent : List M} {m : M} {k : K}

-- what a view holds under a key once all that is under way has arrived in order
def outcome (key : M → K) (apply : Option V → M → Option V) (current : Option V)
    (underWay : List M) (k : K) : Option V :=
  (underWay.filter (fun m => decide (key m = k))).foldl apply current

@[simp] theorem outcome_nil : outcome key apply current [] k = current := rfl

theorem outcome_append : outcome key apply current (underWay ++ sent) k =
    outcome key apply (outcome key apply current underWay k) sent k := by
  unfold outcome
  rw [List.filter_append, List.foldl_append]

theorem outcome_of_filter {about : List M}
    (h : sent.filter (fun m => decide (key m = k)) = about) :
    outcome key apply current sent k = about.foldl apply current := by
  rw [outcome, h]

-- nothing older with the same key is still under way
theorem outcome_arrive {i : Nat} (h : underWay[i]? = some m)
    (hfirst : ∀ m' ∈ underWay.take i, key m' ≠ key m) :
    outcome key apply (if key m = k then apply current m else current)
        (underWay.eraseIdx i) k = outcome key apply current underWay k := by
  obtain ⟨before, after, rfl, hsplit, -, herase⟩ := Pool.split_of_getElem? h
  rw [herase]
  nth_rewrite 2 [hsplit]
  rw [outcome_append, outcome_append]
  split_ifs with hk
  · have hbefore : (underWay.take i).filter (fun m => decide (key m = k)) = [] := by
      refine List.filter_eq_nil_iff.mpr (fun m' hm' => ?_)
      simpa [← hk] using hfirst m' hm'
    rw [outcome_of_filter hbefore, outcome_of_filter hbefore]
    simp [outcome, hk]
  · simp [outcome, hk]

end FogFlow.Inbox
