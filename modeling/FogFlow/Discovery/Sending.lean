import FogFlow.Discovery.FastDiscovery
import FogFlow.Library.Pool

namespace FogFlow.Discovery.Sending

open Ngsi Execution

structure CacheItem where
  subscriberURL : String
  notify : NotifyContextAvailabilityRequest
deriving DecidableEq, Repr

-- the item that the n-th call of sendNotify prepares; the cache holds pointers to such items
structure Notice where
  call : Nat
  item : CacheItem
deriving DecidableEq, Repr

-- a run of sendNotify or resendCachedItems, cut at its sections of cache_lock and its posts
inductive Goroutine where
  | checkCache (notice : Notice)
  | postNotify (notice : Notice)
  | storeItem (notice : Notice)
  | takeCache
  | resend (cachedItem newCache : List Notice)
deriving DecidableEq, Repr

structure System where
  called : List Notice
  notifyCache : List Notice
  delivered : List Notice
  running : List Goroutine

def System.init : System := ⟨[], [], [], []⟩

def System.spawn (s : System) (g : Goroutine) : System := { s with running := s.running ++ [g] }

-- the second component is what is left of the goroutine and what it has started
def advance (done : Bool) (s : System) : Goroutine → System × List Goroutine
  | .checkCache notice =>
      (s, (if s.notifyCache.isEmpty then [] else [.takeCache]) ++ [.postNotify notice])
  | .postNotify notice =>
      if done then ({ s with delivered := s.delivered ++ [notice] }, [])
      else (s, [.storeItem notice])
  | .storeItem notice => ({ s with notifyCache := s.notifyCache ++ [notice] }, [])
  | .takeCache => ({ s with notifyCache := [] }, [.resend s.notifyCache []])
  | .resend (item :: rest) newCache =>
      if done then ({ s with delivered := s.delivered ++ [item] }, [.resend rest newCache])
      else (s, [.resend rest (newCache ++ [item])])
  | .resend [] newCache => ({ s with notifyCache := s.notifyCache ++ newCache }, [])

inductive Label where
  | sendNotify (item : CacheItem)
  | onTimer
  | run (i : Nat) (done : Bool)

def System.sendNotify (s : System) (item : CacheItem) : System :=
  { s.spawn (.checkCache ⟨s.called.length, item⟩) with
    called := s.called ++ [⟨s.called.length, item⟩] }

def System.advanceAt (s : System) (i : Nat) (done : Bool) (g : Goroutine) : System :=
  { (advance done s g).1 with running := Pool.replace s.running i (advance done s g).2 }

def step (s : System) : Label → Option System
  | .sendNotify item => some (s.sendNotify item)
  | .onTimer => some (s.spawn .takeCache)
  | .run i done => (s.running[i]?).map (s.advanceAt i done)

def Goroutine.held : Goroutine → List Notice
  | .checkCache notice | .postNotify notice | .storeItem notice => [notice]
  | .takeCache => []
  | .resend cachedItem newCache => cachedItem ++ newCache

def System.held (s : System) : List Notice := s.running.flatMap Goroutine.held

def System.holders (s : System) (notice : Notice) : Nat :=
  s.running.countP (fun g => g.held.contains notice)

def Kept (s : System) (notice : Notice) : Prop :=
  (s.delivered.count notice = 1 ∧ s.notifyCache.count notice = 0 ∧ s.holders notice = 0) ∨
  (s.delivered.count notice = 0 ∧ s.notifyCache.count notice = 1 ∧ s.holders notice = 0) ∨
  (s.delivered.count notice = 0 ∧ s.notifyCache.count notice = 0 ∧ s.holders notice = 1)

-- every call has a notice of its own, and there are no notices but these
structure Accounted (s : System) : Prop where
  called : s.called.Nodup
  kept : ∀ notice ∈ s.called, Kept s notice
  only : ∀ notice, notice ∈ s.delivered ∨ notice ∈ s.notifyCache ∨ notice ∈ s.held →
    notice ∈ s.called
  heldOnce : ∀ g ∈ s.running, g.held.Nodup

structure Conserved (s : System) : Prop where
  numbered : s.called.map Notice.call = List.range s.called.length
  conserved : (s.delivered ++ s.notifyCache ++ s.held).Perm s.called

variable {s t : System}

theorem conserved_init : Conserved System.init := ⟨rfl, List.Perm.refl _⟩

theorem conserved_sendNotify (h : Conserved s) (item : CacheItem) :
    Conserved (s.sendNotify item) := by
  constructor
  · have hnumbered := h.numbered
    simp [System.sendNotify, hnumbered, List.range_succ]
  · have hconserved := h.conserved.append_right [⟨s.called.length, item⟩]
    simpa [System.sendNotify, System.spawn, System.held, Goroutine.held] using hconserved

-- one section or post moves notices between the three places and loses none
theorem perm_advance (done : Bool) (s : System) (g : Goroutine) :
    ((advance done s g).1.delivered ++ (advance done s g).1.notifyCache ++
        (advance done s g).2.flatMap Goroutine.held).Perm
      (s.delivered ++ s.notifyCache ++ g.held) := by
  apply List.perm_iff_count.mpr
  intro notice
  cases g with
  | checkCache n =>
    cases hempty : s.notifyCache.isEmpty <;> simp [advance, hempty, Goroutine.held]
  | postNotify n =>
    cases done
    · simp [advance, Goroutine.held]
    · simp only [advance, Goroutine.held, List.count_append, if_true, List.flatMap_nil]
      simp only [List.count_nil]
      omega
  | storeItem n => simp [advance, Goroutine.held]
  | takeCache => simp [advance, Goroutine.held]
  | resend cachedItem newCache =>
    cases cachedItem with
    | nil => simp [advance, Goroutine.held]
    | cons item rest =>
      have hcons : (item :: rest).count notice = [item].count notice + rest.count notice := by
        rw [← List.count_append, List.singleton_append]
      cases done
      · simp only [advance, Goroutine.held, List.count_append, if_false, hcons,
          Bool.false_eq_true, List.flatMap_singleton]
        omega
      · simp only [advance, Goroutine.held, List.count_append, if_true, hcons,
          List.flatMap_singleton]
        omega

@[simp] theorem called_advance (done : Bool) (s : System) (g : Goroutine) :
    (advance done s g).1.called = s.called := by
  cases g with
  | resend cachedItem newCache => cases cachedItem <;> cases done <;> rfl
  | _ => cases done <;> rfl

theorem conserved_advanceAt (h : Conserved s) {i : Nat} {g : Goroutine} (done : Bool)
    (hg : s.running[i]? = some g) : Conserved (s.advanceAt i done g) := by
  constructor
  · simpa [System.advanceAt] using h.numbered
  · have hmoved := perm_advance done s g
    have hpool := Pool.perm_flatMap_replace Goroutine.held hg (advance done s g).2
    have htotal := h.conserved
    rw [List.perm_iff_count] at hmoved hpool htotal ⊢
    intro notice
    have h1 := hmoved notice
    have h2 := hpool notice
    have h3 := htotal notice
    simp only [List.count_append, System.held, System.advanceAt, called_advance] at h1 h2 h3 ⊢
    omega

theorem conserved_step (h : Conserved s) {label : Label} (hs : step s label = some t) :
    Conserved t := by
  cases label with
  | sendNotify item =>
    rw [← Option.some.inj hs]
    exact conserved_sendNotify h item
  | onTimer =>
    rw [← Option.some.inj hs]
    refine ⟨h.numbered, ?_⟩
    simpa [System.spawn, System.held, Goroutine.held] using h.conserved
  | run i done =>
    obtain ⟨g, hg, rfl⟩ := Option.map_eq_some_iff.mp hs
    exact conserved_advanceAt h done hg

theorem Conserved.nodup (h : Conserved s) : s.called.Nodup := by
  have hrange : (s.called.map Notice.call).Nodup := h.numbered ▸ List.nodup_range
  exact hrange.of_map

theorem Conserved.accounted (h : Conserved s) : Accounted s := by
  have hplaces := h.conserved.nodup_iff.mpr h.nodup
  have hheld : (s.running.flatMap Goroutine.held).Nodup := (List.nodup_append.mp hplaces).2.1
  refine ⟨h.nodup, fun notice hcalled => ?_, fun notice hmem => ?_, fun g hg => ?_⟩
  · have htotal := h.conserved.count_eq notice
    have hone := List.nodup_iff_count_eq_one.mp h.nodup notice hcalled
    simp only [List.count_append, System.held] at htotal
    simp only [Kept, System.holders, Pool.countP_holders hheld]
    omega
  · apply h.conserved.mem_iff.mp
    simpa [or_assoc] using hmem
  · exact (List.nodup_flatMap.mp hheld).1 g hg

theorem conserved_run {is : List Label} (h : exec step System.init is = some s) : Conserved s :=
  exec_invariant h conserved_init (fun _ _ _ hr ht => conserved_step hr ht)

theorem notifications_accounted {is : List Label} (h : exec step System.init is = some s) :
    Accounted s :=
  (conserved_run h).accounted

def roomItem : CacheItem := ⟨"broker", ⟨"sub", [], ⟨301, "OK"⟩⟩⟩

-- the first post fails, then a timer and the next call both resend while it fails once more
def overlappingResends : List Label :=
  [.sendNotify roomItem, .run 0 true, .run 0 false, .run 0 true, .onTimer,
    .sendNotify roomItem, .run 1 true, .run 0 true, .run 1 true, .run 0 false, .run 0 true]

theorem overlapping_resends_accounted :
    ∃ s, exec step System.init overlappingResends = some s ∧ Accounted s := by
  have hrun : exec step System.init overlappingResends = some _ := rfl
  exact ⟨_, hrun, notifications_accounted hrun⟩

end FogFlow.Discovery.Sending
