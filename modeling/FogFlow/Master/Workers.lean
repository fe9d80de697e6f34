import FogFlow.Library.GoMap
import FogFlow.Ngsi.Value
import Mathlib.Algebra.Ring.Nat
import Mathlib.Data.List.MinMax

namespace FogFlow.Master.Workers

open Ngsi

structure PhysicalLocation where
  latitude : ℚ
  longitude : ℚ
deriving DecidableEq, Repr

structure WorkerProfile where
  wid : String
  pLocation : PhysicalLocation
  osType : String
  hwType : String
  capacity : Int
  workload : Int
deriving DecidableEq, Repr

abbrev WorkerList := GoMap WorkerProfile

def WorkerProfile.isOverloaded (worker : WorkerProfile) : Bool :=
  decide (worker.workload ≥ worker.capacity)

def WorkerProfile.point (worker : WorkerProfile) : Point :=
  ⟨worker.pLocation.latitude, worker.pLocation.longitude⟩

def maxUint64 : UInt64 := 0xFFFFFFFFFFFFFFFF

-- the sum wraps around as Go's does
def totalDistance (distance : Point → Point → UInt64) (locations : List Point)
    (worker : WorkerProfile) : UInt64 :=
  locations.foldl (fun total location =>
    if location.isEmpty then total else total + distance worker.point location) 0

structure Closest where
  closestWorkerID : String
  closestTotalDistance : UInt64

def visitWorker (distance : Point → Point → UInt64) (locations : List Point) (closest : Closest)
    (worker : WorkerProfile) : Closest :=
  if worker.isOverloaded then closest
  else if totalDistance distance locations worker < closest.closestTotalDistance then
    ⟨worker.wid, totalDistance distance locations worker⟩
  else closest

def selectWorker (distance : Point → Point → UInt64) (rank : String → Nat) (workers : WorkerList)
    (locations : List Point) : String :=
  match locations with
  | [] => (((workers.range rank).head?).map (fun e => e.2.wid)).getD ""
  | _ :: _ =>
      (((workers.range rank).map (fun e => e.2)).foldl (visitWorker distance locations)
        ⟨"", maxUint64⟩).closestWorkerID

-- what the sum of the distances is before it wraps around
def summedDistance (distance : Point → Point → UInt64) (locations : List Point)
    (worker : WorkerProfile) : Nat :=
  ((locations.filter (fun location => !location.isEmpty)).map (fun location =>
    (distance worker.point location).toNat)).foldr (fun far total => far + total) 0

def available (workers : List WorkerProfile) : List WorkerProfile :=
  workers.filter (fun worker => !worker.isOverloaded)

def AllOverloaded (workers : WorkerList) : Prop :=
  ∀ k worker, workers.get k = some worker → worker.isOverloaded = true

structure IsClosest (distance : Point → Point → UInt64) (locations : List Point)
    (workers : WorkerList) (worker : WorkerProfile) : Prop where
  listed : ∃ k, workers.get k = some worker
  free : worker.isOverloaded = false
  minimal : ∀ k other, workers.get k = some other → other.isOverloaded = false →
    summedDistance distance locations worker ≤ summedDistance distance locations other

variable {distance : Point → Point → UInt64} {rank : String → Nat} {workers : WorkerList}
  {locations : List Point}

theorem toNat_totalDistance_from (worker : WorkerProfile) (total : UInt64)
    (h : total.toNat + summedDistance distance locations worker < 2 ^ 64) :
    (locations.foldl (fun total location =>
      if location.isEmpty then total else total + distance worker.point location) total).toNat =
      total.toNat + summedDistance distance locations worker := by
  induction locations generalizing total with
  | nil => rfl
  | cons location locations ih =>
    rw [List.foldl_cons]
    cases hempty : location.isEmpty with
    | true =>
      have hsum : summedDistance distance (location :: locations) worker =
          summedDistance distance locations worker := by
        simp [summedDistance, hempty]
      rw [hsum] at h ⊢
      exact ih total h
    | false =>
      have hsum : summedDistance distance (location :: locations) worker =
          (distance worker.point location).toNat + summedDistance distance locations worker := by
        simp [summedDistance, hempty]
      have hadd : (total + distance worker.point location).toNat =
          total.toNat + (distance worker.point location).toNat := by
        rw [UInt64.toNat_add, Nat.mod_eq_of_lt (by omega)]
      rw [hsum] at h ⊢
      rw [if_neg Bool.false_ne_true, ih _ (by omega), hadd]
      omega

theorem toNat_totalDistance {worker : WorkerProfile}
    (h : summedDistance distance locations worker < 2 ^ 64 - 1) :
    (totalDistance distance locations worker).toNat =
      summedDistance distance locations worker := by
  have hfrom : (totalDistance distance locations worker).toNat =
      (0 : UInt64).toNat + summedDistance distance locations worker := by
    apply toNat_totalDistance_from
    rw [UInt64.toNat_zero]
    omega
  rw [hfrom, UInt64.toNat_zero, Nat.zero_add]

-- below the start value the loop computes an argmin over the workers that are not overloaded
theorem foldl_visitWorker (workers : List WorkerProfile)
    (h : ∀ worker ∈ workers, summedDistance distance locations worker < 2 ^ 64 - 1) :
    workers.foldl (visitWorker distance locations) ⟨"", maxUint64⟩ =
      match (available workers).argmin (summedDistance distance locations) with
      | none => ⟨"", maxUint64⟩
      | some worker => ⟨worker.wid, totalDistance distance locations worker⟩ := by
  induction workers using List.reverseRecOn with
  | nil => rfl
  | append_singleton workers worker ih =>
    have hrest : ∀ other ∈ workers, summedDistance distance locations other < 2 ^ 64 - 1 := by
      intro other hother
      exact h other (List.mem_append_left _ hother)
    have hworker := h worker (by simp)
    rw [List.foldl_append, List.foldl_cons, List.foldl_nil, ih hrest, visitWorker]
    cases hload : worker.isOverloaded with
    | true =>
      have havail : available (workers ++ [worker]) = available workers := by
        simp [available, hload]
      rw [if_pos rfl, havail]
    | false =>
      have havail : available (workers ++ [worker]) = available workers ++ [worker] := by
        simp [available, hload]
      rw [if_neg Bool.false_ne_true, havail, List.argmin_concat]
      cases hmin : (available workers).argmin (summedDistance distance locations) with
      | none =>
        have hlt : totalDistance distance locations worker < maxUint64 := by
          rw [UInt64.lt_iff_toNat_lt, toNat_totalDistance hworker]
          exact hworker
        exact if_pos hlt
      | some best =>
        have hbest : best ∈ workers := List.mem_of_mem_filter (List.argmin_mem hmin)
        have hiff : totalDistance distance locations worker <
            totalDistance distance locations best ↔
            summedDistance distance locations worker < summedDistance distance locations best := by
          rw [UInt64.lt_iff_toNat_lt, toNat_totalDistance hworker,
            toNat_totalDistance (hrest best hbest)]
        simp only [hiff]
        split_ifs <;> rfl

theorem mem_workers {worker : WorkerProfile} :
    worker ∈ (workers.range rank).map (fun e => e.2) ↔ ∃ k, workers.get k = some worker := by
  rw [List.mem_map]
  constructor
  · rintro ⟨⟨k, w⟩, he, rfl⟩
    exact ⟨k, GoMap.mem_range.mp he⟩
  · rintro ⟨k, hk⟩
    exact ⟨⟨k, worker⟩, GoMap.mem_range.mpr hk, rfl⟩

theorem mem_available {worker : WorkerProfile} :
    worker ∈ available ((workers.range rank).map (fun e => e.2)) ↔
      (∃ k, workers.get k = some worker) ∧ worker.isOverloaded = false := by
  rw [available, List.mem_filter, mem_workers]
  simp

theorem selectWorker_eq (hlocations : locations ≠ [])
    (hsum : ∀ k worker, workers.get k = some worker →
      summedDistance distance locations worker < 2 ^ 64 - 1) :
    selectWorker distance rank workers locations =
      (((available ((workers.range rank).map (fun e => e.2))).argmin
        (summedDistance distance locations)).map WorkerProfile.wid).getD "" := by
  have hbound : ∀ worker ∈ (workers.range rank).map (fun e => e.2),
      summedDistance distance locations worker < 2 ^ 64 - 1 := by
    intro worker hworker
    obtain ⟨k, hk⟩ := mem_workers.mp hworker
    exact hsum k worker hk
  cases locations with
  | nil => exact absurd rfl hlocations
  | cons location locations =>
    rw [selectWorker, foldl_visitWorker _ hbound]
    cases (available ((workers.range rank).map (fun e => e.2))).argmin
      (summedDistance distance (location :: locations)) <;> rfl

theorem available_eq_nil_iff :
    available ((workers.range rank).map (fun e => e.2)) = [] ↔ AllOverloaded workers := by
  rw [List.eq_nil_iff_forall_not_mem]
  constructor
  · intro h k worker hk
    cases hload : worker.isOverloaded with
    | true => rfl
    | false => exact absurd (mem_available.mpr ⟨⟨k, hk⟩, hload⟩) (h worker)
  · intro h worker hworker
    obtain ⟨⟨k, hk⟩, hload⟩ := mem_available.mp hworker
    rw [h k worker hk] at hload
    cases hload

theorem isClosest_of_argmin {worker : WorkerProfile}
    (h : (available ((workers.range rank).map (fun e => e.2))).argmin
      (summedDistance distance locations) = some worker) :
    IsClosest distance locations workers worker := by
  obtain ⟨hlisted, hfree⟩ := mem_available.mp (List.argmin_mem h)
  refine ⟨hlisted, hfree, fun k other hk hother => ?_⟩
  exact List.le_of_mem_argmin (mem_available.mpr ⟨⟨k, hk⟩, hother⟩) h

theorem selectWorker_closest (hlocations : locations ≠ [])
    (hsum : ∀ k worker, workers.get k = some worker →
      summedDistance distance locations worker < 2 ^ 64 - 1) :
    (AllOverloaded workers → selectWorker distance rank workers locations = "") ∧
      (¬ AllOverloaded workers → ∃ worker, IsClosest distance locations workers worker ∧
        selectWorker distance rank workers locations = worker.wid) ∧
      ((∀ k worker, workers.get k = some worker → worker.wid ≠ "") →
        (selectWorker distance rank workers locations = "" ↔ AllOverloaded workers)) := by
  have hnone : AllOverloaded workers → selectWorker distance rank workers locations = "" := by
    intro hall
    rw [selectWorker_eq hlocations hsum, available_eq_nil_iff.mpr hall]
    rfl
  have hsome : ¬ AllOverloaded workers → ∃ worker, IsClosest distance locations workers worker ∧
      selectWorker distance rank workers locations = worker.wid := by
    intro hfree
    rw [selectWorker_eq hlocations hsum]
    cases hmin : (available ((workers.range rank).map (fun e => e.2))).argmin
        (summedDistance distance locations) with
    | none => exact absurd (available_eq_nil_iff.mp (List.argmin_eq_none.mp hmin)) hfree
    | some worker => exact ⟨worker, isClosest_of_argmin hmin, rfl⟩
  refine ⟨hnone, hsome, fun hwid => ⟨fun hempty => ?_, hnone⟩⟩
  by_contra hfree
  obtain ⟨worker, hclosest, heq⟩ := hsome hfree
  obtain ⟨k, hk⟩ := hclosest.listed
  exact hwid k worker hk (heq.symm.trans hempty)

theorem foldl_visitWorker_wid (workers : List WorkerProfile) (closest : Closest) :
    (workers.foldl (visitWorker distance locations) closest).closestWorkerID =
        closest.closestWorkerID ∨
      ∃ worker ∈ workers, (workers.foldl (visitWorker distance locations)
        closest).closestWorkerID = worker.wid := by
  induction workers generalizing closest with
  | nil => exact .inl rfl
  | cons worker workers ih =>
    rw [List.foldl_cons]
    rcases ih (visitWorker distance locations closest worker) with hkept | ⟨other, hother, hwid⟩
    · rw [hkept, visitWorker]
      split_ifs
      · exact .inl rfl
      · exact .inr ⟨worker, List.mem_cons_self, rfl⟩
      · exact .inl rfl
    · exact .inr ⟨other, List.mem_cons_of_mem _ hother, hwid⟩

theorem selectWorker_listed (h : selectWorker distance rank workers locations ≠ "") :
    ∃ k worker, workers.get k = some worker ∧
      worker.wid = selectWorker distance rank workers locations := by
  cases locations with
  | nil =>
    rw [selectWorker] at h ⊢
    cases hhead : (workers.range rank).head? with
    | none => simp [hhead] at h
    | some e => exact ⟨e.1, e.2, GoMap.mem_range.mp (List.mem_of_head? hhead), rfl⟩
  | cons location locations =>
    rw [selectWorker] at h ⊢
    rcases @foldl_visitWorker_wid distance (location :: locations)
      ((workers.range rank).map (fun e => e.2)) ⟨"", maxUint64⟩ with hnone | ⟨worker, hmem, hwid⟩
    · exact absurd hnone h
    · obtain ⟨k, hk⟩ := mem_workers.mp hmem
      exact ⟨k, worker, hk, hwid.symm⟩

def edgeWorkers : WorkerList :=
  ((∅ : WorkerList).set "Worker.001" ⟨"Worker.001", ⟨49, 8⟩, "linux", "arm", 2, 2⟩).set
    "Worker.002" ⟨"Worker.002", ⟨35, 139⟩, "linux", "x86", 4, 1⟩

theorem selectWorker_skips_overloaded :
    selectWorker (fun p q => if p = q then 0 else 7) (fun _ => 0) edgeWorkers [⟨49, 8⟩, ⟨0, 0⟩] =
        "Worker.002" ∧
      ∃ worker, IsClosest (fun p q => if p = q then 0 else 7) [⟨49, 8⟩, ⟨0, 0⟩] edgeWorkers
        worker ∧ worker.wid = "Worker.002" := by
  have hsum : ∀ k worker, edgeWorkers.get k = some worker →
      summedDistance (fun p q => if p = q then 0 else 7) [⟨49, 8⟩, ⟨0, 0⟩] worker <
        2 ^ 64 - 1 := by
    intro k worker _
    have hle : summedDistance (fun p q => if p = q then 0 else 7) [⟨49, 8⟩, ⟨0, 0⟩] worker ≤ 7 := by
      have hfilter : [(⟨49, 8⟩ : Point), ⟨0, 0⟩].filter (fun location => !location.isEmpty) =
          [⟨49, 8⟩] := by decide
      rw [summedDistance, hfilter]
      simp only [List.map_cons, List.map_nil]
      split_ifs <;> decide
    omega
  have hfree : ¬ AllOverloaded edgeWorkers := by
    intro hall
    exact absurd (hall "Worker.002" _ rfl) (by decide)
  have hselected : selectWorker (fun p q => if p = q then 0 else 7) (fun _ => 0) edgeWorkers
      [⟨49, 8⟩, ⟨0, 0⟩] = "Worker.002" := by decide
  obtain ⟨worker, hclosest, heq⟩ :=
    (@selectWorker_closest _ (fun _ => 0) _ _ (List.cons_ne_nil _ _) hsum).2.1 hfree
  exact ⟨hselected, worker, hclosest, heq.symm.trans hselected⟩

-- a profile without an id is stored under the empty one, which is also the answer for no worker
theorem selectWorker_unnamed_worker :
    (∀ k worker, ((∅ : WorkerList).set "" ⟨"", ⟨49, 8⟩, "linux", "arm", 2, 0⟩).get k =
        some worker → summedDistance (fun _ _ => 0) [⟨49, 8⟩] worker < 2 ^ 64 - 1) ∧
      ¬ (selectWorker (fun _ _ => 0) (fun _ => 0)
          ((∅ : WorkerList).set "" ⟨"", ⟨49, 8⟩, "linux", "arm", 2, 0⟩) [⟨49, 8⟩] = "" ↔
        AllOverloaded ((∅ : WorkerList).set "" ⟨"", ⟨49, 8⟩, "linux", "arm", 2, 0⟩)) := by
  refine ⟨fun k worker _ => ?_, fun h => ?_⟩
  · have hzero : summedDistance (fun _ _ => 0) [⟨49, 8⟩] worker = 0 := rfl
    omega
  have hall := h.mp (by decide)
  exact absurd (hall "" _ rfl) (by decide)

end FogFlow.Master.Workers
