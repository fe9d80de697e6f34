import FogFlow.Designer.Rabbitmq
import FogFlow.Library.Pool

namespace FogFlow.Designer.Rabbitmq

open Execution

-- at most once for each connection, settled at most once, and in the order of the calls
structure InOrder (s : Client) : Prop where
  once : s.handedOver.Nodup
  settled : s.settled.Nodup
  ordered : (s.handedOver.map Prod.snd).Pairwise (· ≤ ·)

def Awaited.failed : Awaited → Bool
  | .directFailed _ => true
  | _ => false

-- a call finds no failed call still to be queued again, and a ready channel no queue
def Orderly (s : Client) : Event → Prop
  | .publish _ => s.awaited.countP Awaited.failed = 0 ∧
      (s.isReady = true → s.amqpChannel ≠ none → s.pendingMessages = [])
  | .proceed i _ => s.attempts[i]? = some .flushing → ∀ message channel,
      .flush message channel ∈ s.awaited → s.amqpChannel ≠ some channel
  | _ => True

structure Tidy (s : Client) : Prop where
  inOrder : InOrder s
  sorted : s.pendingMessages.Pairwise (· < ·)
  below : ∀ entry ∈ s.handedOver, ∀ message ∈ s.pendingMessages, entry.2 ≤ message
  underWay : ∀ channel message, (channel, message) ∈ s.handedOver →
    message ∈ s.pendingMessages →
    .flush message channel ∈ s.awaited ∧ s.pendingMessages.head? = some message
  failing : ∀ message, .directFailed message ∈ s.awaited →
    (∀ entry ∈ s.handedOver, entry.2 < message) ∧ ∀ queued ∈ s.pendingMessages, queued < message
  single : s.awaited.countP Awaited.failed ≤ 1
  handedBound : ∀ entry ∈ s.handedOver, entry.2 < s.calls
  pendingBound : ∀ message ∈ s.pendingMessages, message < s.calls
  failedBound : ∀ message, .directFailed message ∈ s.awaited → message < s.calls

variable {s s' : Client} {i : Nat}

theorem tidy_init : Tidy .init where
  inOrder := ⟨List.nodup_nil, List.nodup_nil, List.Pairwise.nil⟩
  sorted := List.Pairwise.nil
  below := nofun
  underWay := nofun
  failing := nofun
  single := Nat.zero_le 1
  handedBound := nofun
  pendingBound := nofun
  failedBound := nofun

-- a step of the connection touches no message
theorem tidy_same (h : Tidy s) (hpending : s'.pendingMessages = s.pendingMessages)
    (hawaited : s'.awaited = s.awaited) (hcalls : s'.calls = s.calls)
    (hhanded : s'.handedOver = s.handedOver) (hsettled : s'.settled = s.settled) : Tidy s' := by
  obtain ⟨⟨honce, hset, hordered⟩, hsorted, hbelow, hunderWay, hfailing, hsingle, hhandedBound,
    hpendingBound, hfailedBound⟩ := h
  rw [← hhanded] at honce hordered hbelow hunderWay hfailing hhandedBound
  rw [← hpending] at hsorted hbelow hunderWay hfailing hpendingBound
  rw [← hawaited] at hunderWay hfailing hsingle hfailedBound
  rw [← hcalls] at hhandedBound hpendingBound hfailedBound
  rw [← hsettled] at hset
  exact ⟨⟨honce, hset, hordered⟩, hsorted, hbelow, hunderWay, hfailing, hsingle, hhandedBound,
    hpendingBound, hfailedBound⟩

theorem tidy_connect (h : Tidy s) : Tidy (connect s) := by
  unfold connect
  split_ifs
  · exact h
  · exact tidy_same h rfl rfl rfl rfl rfl

theorem tidy_onDisconnected (h : Tidy s) : Tidy (onDisconnected s) := by
  unfold onDisconnected
  split_ifs
  · exact tidy_same h rfl rfl rfl rfl rfl
  · exact tidy_same h rfl rfl rfl rfl rfl

theorem tidy_settle (h : Tidy s) (message : Nat) : Tidy (settle s message) := by
  unfold settle
  split_ifs with hmem
  · exact h
  · refine ⟨⟨h.inOrder.once, ?_, h.inOrder.ordered⟩, h.sorted, h.below, h.underWay, h.failing,
      h.single, h.handedBound, h.pendingBound, h.failedBound⟩
    refine List.nodup_append.mpr ⟨h.inOrder.settled, List.nodup_singleton message, ?_⟩
    rintro settled hsettled _ hnew rfl
    exact hmem (List.mem_singleton.mp hnew ▸ hsettled)

theorem tidy_await (h : Tidy s) {a : Awaited} (ha : a.failed = false) :
    Tidy { s with awaited := s.awaited ++ [a] } := by
  have hold {message : Nat} (hmem : .directFailed message ∈ s.awaited ++ [a]) :
      .directFailed message ∈ s.awaited := by
    rcases List.mem_append.mp hmem with hmem | hmem
    · exact hmem
    · rw [← List.mem_singleton.mp hmem] at ha
      cases ha
  refine ⟨⟨h.inOrder.once, h.inOrder.settled, h.inOrder.ordered⟩, h.sorted, h.below, ?_,
    fun message hmem => h.failing message (hold hmem), ?_, h.handedBound, h.pendingBound,
    fun message hmem => h.failedBound message (hold hmem)⟩
  · intro channel message hentry hqueued
    obtain ⟨hawaits, hfirst⟩ := h.underWay channel message hentry hqueued
    exact ⟨List.mem_append_left _ hawaits, hfirst⟩
  · simpa [List.countP_append, ha] using h.single

-- a message that nothing earlier waits for is handed over
theorem tidy_hand (h : Tidy s) {channel message : Nat}
    (hnew : (channel, message) ∉ s.handedOver)
    (hafter : ∀ entry ∈ s.handedOver, entry.2 ≤ message)
    (hleast : ∀ queued ∈ s.pendingMessages, message ≤ queued)
    (hqueued : message ∈ s.pendingMessages →
      .flush message channel ∈ s.awaited ∧ s.pendingMessages.head? = some message)
    (hfailing : ∀ failed, .directFailed failed ∈ s.awaited → message < failed)
    (hcalls : message < s.calls) :
    Tidy { s with handedOver := s.handedOver ++ [(channel, message)] } := by
  have hmem {entry : Nat × Nat} (hentry : entry ∈ s.handedOver ++ [(channel, message)]) :
      entry ∈ s.handedOver ∨ entry = (channel, message) := by
    simpa using hentry
  refine ⟨⟨?_, h.inOrder.settled, ?_⟩, h.sorted, ?_, ?_, ?_, h.single, ?_, h.pendingBound,
    h.failedBound⟩
  · refine List.nodup_append.mpr ⟨h.inOrder.once, List.nodup_singleton _, ?_⟩
    rintro entry hentry _ hlast rfl
    exact hnew (List.mem_singleton.mp hlast ▸ hentry)
  · rw [List.map_append]
    refine List.pairwise_append.mpr ⟨h.inOrder.ordered, List.pairwise_singleton _ _, ?_⟩
    intro m hm n hn
    obtain ⟨entry, hentry, rfl⟩ := List.mem_map.mp hm
    rw [List.mem_singleton.mp hn]
    exact hafter entry hentry
  · intro entry hentry queued hin
    rcases hmem hentry with hentry | rfl
    · exact h.below entry hentry queued hin
    · exact hleast queued hin
  · intro channel' message' hentry hin
    rcases hmem hentry with hentry | heq
    · exact h.underWay channel' message' hentry hin
    · obtain ⟨rfl, rfl⟩ := Prod.mk.inj heq
      exact hqueued hin
  · intro failed hfailed
    refine ⟨fun entry hentry => ?_, (h.failing failed hfailed).2⟩
    rcases hmem hentry with hentry | rfl
    · exact (h.failing failed hfailed).1 entry hentry
    · exact hfailing failed hfailed
  · intro entry hentry
    rcases hmem hentry with hentry | rfl
    · exact h.handedBound entry hentry
    · exact hcalls

theorem tidy_flushPendingMessages (h : Tidy s) (outcome : Outcome)
    (hnew : ∀ channel message, s.amqpChannel = some channel →
      s.pendingMessages.head? = some message → (channel, message) ∉ s.handedOver) :
    Tidy (flushPendingMessages s outcome) := by
  unfold flushPendingMessages
  split
  case h_2 => exact h
  case h_1 message rest channel hpending hready hchannel =>
    cases outcome with
    | thrown => exact tidy_await h rfl
    | accepted =>
      have hhead : s.pendingMessages.head? = some message := by rw [hpending]; rfl
      have hmem : message ∈ s.pendingMessages := by rw [hpending]; exact List.mem_cons_self
      have hleast : ∀ queued ∈ s.pendingMessages, message ≤ queued := by
        have hsorted := h.sorted
        rw [hpending] at hsorted ⊢
        intro queued hqueued
        rcases List.mem_cons.mp hqueued with rfl | hqueued
        · exact le_refl queued
        · exact le_of_lt (List.rel_of_pairwise_cons hsorted hqueued)
      refine tidy_hand (tidy_await h rfl) (hnew channel message hchannel hhead)
        (fun entry hentry => h.below entry hentry message hmem) hleast ?_ ?_
        (h.pendingBound message hmem)
      · exact fun _ => ⟨List.mem_append_right _ List.mem_cons_self, hhead⟩
      · intro failed hfailed
        exact (h.failing failed (by simpa using hfailed)).2 message hmem

theorem tidy_call (h : Tidy s) : Tidy { s with calls := s.calls + 1 } :=
  ⟨⟨h.inOrder.once, h.inOrder.settled, h.inOrder.ordered⟩, h.sorted, h.below, h.underWay,
    h.failing, h.single, fun entry hentry => (h.handedBound entry hentry).trans_le (Nat.le_succ _),
    fun message hmem => (h.pendingBound message hmem).trans_le (Nat.le_succ _),
    fun message hmem => (h.failedBound message hmem).trans_le (Nat.le_succ _)⟩

theorem no_failed (hfree : s.awaited.countP Awaited.failed = 0) (message : Nat) :
    .directFailed message ∉ s.awaited := by
  intro hmem
  have hpos : 0 < s.awaited.countP Awaited.failed := List.countP_pos_iff.mpr ⟨_, hmem, rfl⟩
  omega

-- a message behind all that were called and none of which failed is queued
theorem tidy_queue (h : Tidy s) {message : Nat}
    (hfree : s.awaited.countP Awaited.failed = 0)
    (hhanded : ∀ entry ∈ s.handedOver, entry.2 < message)
    (hpending : ∀ queued ∈ s.pendingMessages, queued < message) (hcalls : message < s.calls) :
    Tidy { s with pendingMessages := s.pendingMessages ++ [message] } := by
  refine ⟨⟨h.inOrder.once, h.inOrder.settled, h.inOrder.ordered⟩, ?_, ?_, ?_,
    fun failed hfailed => absurd hfailed (no_failed hfree failed), h.single, h.handedBound, ?_,
    h.failedBound⟩
  · refine List.pairwise_append.mpr ⟨h.sorted, List.pairwise_singleton _ _, ?_⟩
    intro queued hqueued last hlast
    rw [List.mem_singleton.mp hlast]
    exact hpending queued hqueued
  · intro entry hentry queued hqueued
    rcases List.mem_append.mp hqueued with hqueued | hqueued
    · exact h.below entry hentry queued hqueued
    · rw [List.mem_singleton.mp hqueued]
      exact le_of_lt (hhanded entry hentry)
  · intro channel queued hentry hqueued
    rcases List.mem_append.mp hqueued with hqueued | hqueued
    · obtain ⟨hawaits, hfirst⟩ := h.underWay channel queued hentry hqueued
      exact ⟨hawaits, by rw [List.head?_append, hfirst]; rfl⟩
    · rw [List.mem_singleton.mp hqueued] at hentry
      exact absurd (hhanded _ hentry) (lt_irrefl message)
  · intro queued hqueued
    rcases List.mem_append.mp hqueued with hqueued | hqueued
    · exact h.pendingBound queued hqueued
    · rw [List.mem_singleton.mp hqueued]
      exact hcalls

theorem tidy_publish (h : Tidy s) {outcome : Outcome} (hc : Orderly s (.publish outcome)) :
    Tidy (publish s outcome) := by
  obtain ⟨hfree, hempty⟩ := hc
  unfold publish
  split
  case h_1 channel hready hchannel =>
    have hnone : s.pendingMessages = [] := hempty hready (by rw [hchannel]; exact nofun)
    cases outcome with
    | accepted =>
      have hawait : Tidy { s with
          calls := s.calls + 1
          awaited := s.awaited ++ [.direct s.calls channel] } := tidy_await (tidy_call h) rfl
      refine tidy_hand hawait ?_ (fun entry hentry => le_of_lt (h.handedBound entry hentry)) ?_ ?_
        ?_ (Nat.lt_succ_self s.calls)
      · exact fun hentry => absurd (h.handedBound _ hentry) (lt_irrefl s.calls)
      · exact fun queued hqueued => by simp [hnone] at hqueued
      · exact fun hqueued => by simp [hnone] at hqueued
      · intro failed hfailed
        exact absurd (by simpa using hfailed) (no_failed hfree failed)
    | thrown =>
      refine ⟨⟨h.inOrder.once, h.inOrder.settled, h.inOrder.ordered⟩, h.sorted, h.below, ?_, ?_,
        ?_, (tidy_call h).handedBound, (tidy_call h).pendingBound, ?_⟩
      · exact fun _ _ _ hqueued => by simp [hnone] at hqueued
      · intro failed hfailed
        rcases List.mem_append.mp hfailed with hfailed | hfailed
        · exact absurd hfailed (no_failed hfree failed)
        · obtain rfl := Awaited.directFailed.inj (List.mem_singleton.mp hfailed)
          exact ⟨h.handedBound, h.pendingBound⟩
      · simp [List.countP_append, hfree, Awaited.failed]
      · intro failed hfailed
        rcases List.mem_append.mp hfailed with hfailed | hfailed
        · exact absurd hfailed (no_failed hfree failed)
        · obtain rfl := Awaited.directFailed.inj (List.mem_singleton.mp hfailed)
          exact Nat.lt_succ_self s.calls
  case h_2 =>
    have hqueued : Tidy { s with
        calls := s.calls + 1
        pendingMessages := s.pendingMessages ++ [s.calls] } :=
      tidy_queue (tidy_call h) hfree h.handedBound h.pendingBound (Nat.lt_succ_self s.calls)
    dsimp only
    split_ifs
    · exact tidy_connect hqueued
    · exact hqueued

theorem mem_of_eraseIdx {a : Awaited} (hmem : a ∈ s.awaited.eraseIdx i) : a ∈ s.awaited :=
  List.mem_of_mem_eraseIdx hmem

theorem countP_eraseIdx_le :
    (s.awaited.eraseIdx i).countP Awaited.failed ≤ s.awaited.countP Awaited.failed :=
  (List.eraseIdx_sublist s.awaited i).countP_le

-- only the head of the queue can have been handed over
theorem not_mem_tail (h : Tidy s) {channel message : Nat}
    (hentry : (channel, message) ∈ s.handedOver) : message ∉ s.pendingMessages.tail := by
  intro htail
  have hfirst := (h.underWay channel message hentry (List.mem_of_mem_tail htail)).2
  have hsorted := h.sorted
  cases hpending : s.pendingMessages with
  | nil => simp [hpending] at htail
  | cons head rest =>
    rw [hpending] at hsorted hfirst htail
    obtain rfl := Option.some.inj hfirst
    exact lt_irrefl head (List.rel_of_pairwise_cons hsorted htail)

theorem tidy_shift (h : Tidy s) :
    Tidy (shift { s with awaited := s.awaited.eraseIdx i }) where
  inOrder := ⟨h.inOrder.once, h.inOrder.settled, h.inOrder.ordered⟩
  sorted := h.sorted.sublist (List.tail_sublist _)
  below entry hentry message hmessage :=
    h.below entry hentry message (List.mem_of_mem_tail hmessage)
  underWay _ _ hentry hmessage := absurd hmessage (not_mem_tail h hentry)
  failing message hmem :=
    ⟨(h.failing message (mem_of_eraseIdx hmem)).1, fun queued hqueued =>
      (h.failing message (mem_of_eraseIdx hmem)).2 queued (List.mem_of_mem_tail hqueued)⟩
  single := countP_eraseIdx_le.trans h.single
  handedBound := h.handedBound
  pendingBound message hmessage := h.pendingBound message (List.mem_of_mem_tail hmessage)
  failedBound message hmem := h.failedBound message (mem_of_eraseIdx hmem)

theorem tidy_done (h : Tidy s) {a : Awaited} (hg : s.awaited[i]? = some a)
    (hflush : ∀ message channel, a ≠ .flush message channel) :
    Tidy { s with awaited := s.awaited.eraseIdx i } where
  inOrder := ⟨h.inOrder.once, h.inOrder.settled, h.inOrder.ordered⟩
  sorted := h.sorted
  below := h.below
  underWay channel message hentry hmessage := by
    obtain ⟨hawaits, hfirst⟩ := h.underWay channel message hentry hmessage
    exact ⟨(Pool.mem_eraseIdx_of_ne hg (Ne.symm (hflush message channel))).mpr hawaits, hfirst⟩
  failing message hmem := h.failing message (mem_of_eraseIdx hmem)
  single := countP_eraseIdx_le.trans h.single
  handedBound := h.handedBound
  pendingBound := h.pendingBound
  failedBound message hmem := h.failedBound message (mem_of_eraseIdx hmem)

-- the flush goes on with the message that follows
theorem tidy_flushOn (h : Tidy s) (message : Nat) (outcome : Outcome) :
    Tidy (flushPendingMessages
      (settle (shift { s with awaited := s.awaited.eraseIdx i }) message) outcome) := by
  refine tidy_flushPendingMessages (tidy_settle (tidy_shift h) message) outcome ?_
  intro channel head _ hhead hentry
  have hsame {s : Client} : (settle s message).pendingMessages = s.pendingMessages ∧
      (settle s message).handedOver = s.handedOver := by
    unfold settle
    split_ifs
    · exact ⟨rfl, rfl⟩
    · exact ⟨rfl, rfl⟩
  rw [hsame.1] at hhead
  rw [hsame.2] at hentry
  exact not_mem_tail h hentry (List.mem_of_head? hhead)

theorem tidy_resume (h : Tidy s) {a : Awaited} (hg : s.awaited[i]? = some a)
    (outcome : Outcome) : Tidy (resume s i outcome a) := by
  cases a with
  | direct message channel => exact tidy_settle (tidy_done h hg nofun) message
  | directFailed message =>
    have hmem : .directFailed message ∈ s.awaited := List.mem_of_getElem? hg
    obtain ⟨hhanded, hpending⟩ := h.failing message hmem
    have hcount := Pool.countP_eraseIdx (p := Awaited.failed) hg
    have hfree : (s.awaited.eraseIdx i).countP Awaited.failed = 0 := by
      have hsingle := h.single
      simp only [Awaited.failed, if_true] at hcount
      omega
    exact tidy_onDisconnected (tidy_queue (tidy_done h hg nofun) hfree hhanded hpending
      (h.failedBound message hmem))
  | flush message channel => exact tidy_flushOn h message outcome
  | flushFailed message =>
    unfold resume
    split_ifs
    · exact tidy_done h hg nofun
    · exact tidy_flushOn h message outcome

theorem tidy_proceed (h : Tidy s) {attempt : Attempt} (hg : s.attempts[i]? = some attempt)
    {outcome : Outcome} (hc : Orderly s (.proceed i outcome)) :
    Tidy (proceed s i outcome attempt) := by
  cases attempt with
  | connecting => exact tidy_same h rfl rfl rfl rfl rfl
  | creatingChannel conn => exact tidy_same h rfl rfl rfl rfl rfl
  | settingUp => exact tidy_same h rfl rfl rfl rfl rfl
  | flushing =>
    have hsame : Tidy { s with attempts := s.attempts.eraseIdx i } :=
      tidy_same h rfl rfl rfl rfl rfl
    refine tidy_flushPendingMessages hsame outcome ?_
    intro channel message hchannel hhead hentry
    have hawaits := (h.underWay channel message hentry (List.mem_of_head? hhead)).1
    exact hc hg message channel hawaits hchannel

theorem tidy_step (h : Tidy s) {event : Event} (hc : Orderly s event)
    (hs : step s event = some s') : Tidy s' := by
  cases event with
  | publish outcome =>
    obtain rfl := Option.some.inj hs
    exact tidy_publish h hc
  | proceed i outcome =>
    obtain ⟨attempt, hg, rfl⟩ := Option.map_eq_some_iff.mp hs
    exact tidy_proceed h hg hc
  | fail i =>
    obtain ⟨attempt, -, rfl⟩ := Option.map_eq_some_iff.mp hs
    exact tidy_same h rfl rfl rfl rfl rfl
  | connectionClosed =>
    obtain rfl := Option.some.inj hs
    exact tidy_onDisconnected h
  | channelClosed =>
    obtain rfl := Option.some.inj hs
    split_ifs
    · exact tidy_onDisconnected h
    · exact h
  | timer =>
    simp only [step] at hs
    split_ifs at hs
    obtain rfl := Option.some.inj hs
    exact tidy_connect (tidy_same h rfl rfl rfl rfl rfl)
  | resume i outcome =>
    obtain ⟨a, hg, rfl⟩ := Option.map_eq_some_iff.mp hs
    exact tidy_resume h hg outcome

theorem published_in_order {events : List Event} (hm : Meets step Orderly .init events) :
    Always step InOrder .init events :=
  always_of_meets (I := fun _ s => Tidy s) hm tidy_init
    (fun _ _ _ _ _ _ h hc hs => tidy_step h hc hs) (fun _ _ h => h.inOrder)

-- two messages wait for the connection, and the flush has handed over the first
def twoQueued : List Event :=
  [.proceed 0 .accepted, .proceed 0 .accepted, .publish .accepted, .publish .accepted,
    .proceed 0 .accepted, .proceed 0 .accepted]

theorem third_overtakes_second :
    ¬ Always step InOrder .init (twoQueued ++ [.publish .accepted, .resume 0 .accepted]) := by
  intro h
  have hrun : ∃ s, exec step .init (twoQueued ++ [.publish .accepted, .resume 0 .accepted]) =
      some s ∧ s.handedOver = [(0, 0), (0, 2), (0, 1)] := ⟨_, rfl, rfl⟩
  obtain ⟨s, hexec, hhanded⟩ := hrun
  have hordered := (h _ s (List.prefix_refl _) hexec).ordered
  rw [hhanded] at hordered
  exact absurd hordered (by decide)

theorem third_waits :
    Always step InOrder .init
      (twoQueued ++ [.resume 0 .accepted, .resume 0 .accepted, .publish .accepted]) := by
  refine published_in_order ?_
  refine meets_step nofun rfl ?_
  refine meets_step nofun rfl ?_
  refine meets_step ⟨rfl, nofun⟩ rfl ?_
  refine meets_step ⟨rfl, nofun⟩ rfl ?_
  refine meets_step nofun rfl ?_
  refine meets_step (fun _ message channel hmem => nomatch hmem) rfl ?_
  refine meets_step trivial rfl ?_
  refine meets_step trivial rfl ?_
  exact meets_singleton.mpr ⟨rfl, fun _ _ => rfl⟩

end FogFlow.Designer.Rabbitmq
