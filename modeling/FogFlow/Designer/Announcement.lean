import FogFlow.Designer.Intents

namespace FogFlow.Designer.Intents

open Datamodel Execution Named

section Queue

open Rabbitmq

variable {client next : Client}

-- a flush goes on while the message it waited for is the first of the queue, and drops none
def KeepsQueue (client : Client) : Event → Prop
  | .resume i _ => ∀ a, client.awaited[i]? = some a → match a with
      | .flush message _ => client.pendingMessages.head? = some message
      | .flushFailed _ => client.isReady = false ∨ client.amqpChannel = none
      | _ => True
  | _ => True

def handed (client : Client) (message : Nat) : Prop :=
  ∃ channel, (channel, message) ∈ client.handedOver

structure Complete (client : Client) : Prop where
  flushed : ∀ message channel, .flush message channel ∈ client.awaited →
    (channel, message) ∈ client.handedOver
  kept : ∀ message < client.calls, handed client message ∨
    message ∈ client.pendingMessages ∨ .directFailed message ∈ client.awaited

theorem complete_init : Complete .init := ⟨nofun, nofun⟩

theorem Complete.extend (h : Complete client) (hcalls : next.calls = client.calls)
    (hhanded : ∀ entry ∈ client.handedOver, entry ∈ next.handedOver)
    (hflushed : ∀ message channel, .flush message channel ∈ next.awaited →
      .flush message channel ∈ client.awaited ∨ (channel, message) ∈ next.handedOver)
    (hpending : ∀ message ∈ client.pendingMessages,
      handed next message ∨ message ∈ next.pendingMessages)
    (hfailed : ∀ message, .directFailed message ∈ client.awaited →
      message ∈ next.pendingMessages ∨ .directFailed message ∈ next.awaited) : Complete next := by
  refine ⟨fun message channel hmem => ?_, fun message hmessage => ?_⟩
  · rcases hflushed message channel hmem with hold | hnew
    · exact hhanded _ (h.flushed message channel hold)
    · exact hnew
  · rcases h.kept message (hcalls ▸ hmessage) with ⟨channel, hmem⟩ | hqueued | hfail
    · exact .inl ⟨channel, hhanded _ hmem⟩
    · exact (hpending message hqueued).imp_right .inl
    · exact .inr (hfailed message hfail)

theorem complete_same (h : Complete client) (hcalls : next.calls = client.calls)
    (hhanded : next.handedOver = client.handedOver) (hawaited : next.awaited = client.awaited)
    (hpending : next.pendingMessages = client.pendingMessages) : Complete next :=
  h.extend hcalls (fun _ hmem => hhanded ▸ hmem) (fun _ _ hmem => .inl (hawaited ▸ hmem))
    (fun _ hmem => .inr (hpending ▸ hmem)) (fun _ hmem => .inr (hawaited ▸ hmem))

theorem complete_flushPendingMessages (h : Complete client) (outcome : Rabbitmq.Outcome) :
    Complete (flushPendingMessages client outcome) := by
  unfold flushPendingMessages
  split
  case h_2 => exact h
  case h_1 message rest channel hpending hready hchannel =>
    cases outcome with
    | accepted =>
      refine h.extend rfl (fun entry hmem => List.mem_append_left _ hmem) ?_
        (fun _ hmem => .inr hmem) (fun _ hmem => .inr (List.mem_append_left _ hmem))
      intro m ch hmem
      rcases List.mem_append.mp hmem with hold | hnew
      · exact .inl hold
      · obtain ⟨rfl, rfl⟩ := Awaited.flush.inj (List.mem_singleton.mp hnew)
        exact .inr (List.mem_append_right _ List.mem_cons_self)
    | thrown =>
      refine h.extend rfl (fun _ hmem => hmem) ?_ (fun _ hmem => .inr hmem)
        (fun _ hmem => .inr (List.mem_append_left _ hmem))
      intro m ch hmem
      exact .inl (by simpa using hmem)

theorem complete_onDisconnected (h : Complete client) : Complete (onDisconnected client) := by
  unfold onDisconnected
  split_ifs
  · exact complete_same h rfl rfl rfl rfl
  · exact complete_same h rfl rfl rfl rfl

theorem complete_connect (h : Complete client) : Complete (connect client) := by
  unfold connect
  split_ifs
  · exact h
  · exact complete_same h rfl rfl rfl rfl

theorem complete_settle (h : Complete client) (message : Nat) :
    Complete (settle client message) := by
  unfold settle
  split_ifs
  · exact h
  · exact complete_same h rfl rfl rfl rfl

theorem complete_publish (h : Complete client) (outcome : Rabbitmq.Outcome) :
    Complete (publish client outcome) := by
  have hnew (t : Client) (hcalls : t.calls = client.calls + 1)
      (hlast : handed t client.calls ∨ client.calls ∈ t.pendingMessages ∨
        .directFailed client.calls ∈ t.awaited)
      (hold : Complete { t with calls := client.calls }) : Complete t := by
    refine ⟨hold.flushed, fun message hmessage => ?_⟩
    rcases Nat.lt_or_eq_of_le (Nat.le_of_lt_succ (hcalls ▸ hmessage)) with hlt | rfl
    · exact hold.kept message hlt
    · exact hlast
  unfold publish
  split
  case h_1 channel hready hchannel =>
    cases outcome with
    | accepted =>
      refine hnew _ rfl (.inl ⟨channel, List.mem_append_right _ List.mem_cons_self⟩)
        (h.extend rfl (fun entry hmem => List.mem_append_left _ hmem) ?_
          (fun _ hmem => .inr hmem) (fun _ hmem => .inr (List.mem_append_left _ hmem)))
      intro m ch hmem
      exact .inl (by simpa using hmem)
    | thrown =>
      refine hnew _ rfl (.inr (.inr (List.mem_append_right _ List.mem_cons_self)))
        (h.extend rfl (fun _ hmem => hmem) ?_ (fun _ hmem => .inr hmem)
          (fun _ hmem => .inr (List.mem_append_left _ hmem)))
      intro m ch hmem
      exact .inl (by simpa using hmem)
  case h_2 =>
    have hqueued : Complete { client with
        calls := client.calls + 1
        pendingMessages := client.pendingMessages ++ [client.calls] } :=
      hnew _ rfl (.inr (.inl (List.mem_append_right _ List.mem_cons_self)))
        (h.extend rfl (fun _ hmem => hmem) (fun _ _ hmem => .inl hmem)
          (fun _ hmem => .inr (List.mem_append_left _ hmem)) (fun _ hmem => .inr hmem))
    dsimp only
    split_ifs
    · exact complete_connect hqueued
    · exact hqueued

-- the first of the queue, which leaves it, has been handed over
theorem complete_shift (h : Complete client) {i message channel : Nat}
    (hg : client.awaited[i]? = some (.flush message channel))
    (hhead : client.pendingMessages.head? = some message) :
    Complete (shift { client with awaited := client.awaited.eraseIdx i }) := by
  have hmem : .flush message channel ∈ client.awaited := List.mem_of_getElem? hg
  refine h.extend rfl (fun _ hmem => hmem)
    (fun m ch hin => .inl (List.mem_of_mem_eraseIdx hin)) ?_ ?_
  · intro m hm
    cases hpending : client.pendingMessages with
    | nil => simp [hpending] at hm
    | cons first rest =>
      rw [hpending] at hm hhead
      obtain rfl := Option.some.inj hhead
      rcases List.mem_cons.mp hm with rfl | hrest
      · exact .inl ⟨channel, h.flushed _ _ hmem⟩
      · exact .inr (by simpa [shift, hpending] using hrest)
  · intro m hm
    exact .inr ((Pool.mem_eraseIdx_of_ne hg (by simp)).mpr hm)

theorem complete_resume (h : Complete client) {i : Nat} {a : Awaited}
    (hg : client.awaited[i]? = some a) (outcome : Rabbitmq.Outcome)
    (hkeeps : KeepsQueue client (.resume i outcome)) :
    Complete (resume client i outcome a) := by
  have herase (hne : ∀ message, a ≠ .directFailed message) :
      Complete { client with awaited := client.awaited.eraseIdx i } :=
    h.extend rfl (fun _ hmem => hmem) (fun m ch hin => .inl (List.mem_of_mem_eraseIdx hin))
      (fun _ hmem => .inr hmem)
      (fun m hm => .inr ((Pool.mem_eraseIdx_of_ne hg (hne m).symm).mpr hm))
  have hkeep := hkeeps a hg
  cases a with
  | direct message channel => exact complete_settle (herase (by simp)) message
  | directFailed message =>
    refine complete_onDisconnected (h.extend rfl (fun _ hmem => hmem)
      (fun m ch hin => .inl (List.mem_of_mem_eraseIdx hin))
      (fun _ hmem => .inr (List.mem_append_left _ hmem)) (fun m hm => ?_))
    by_cases heq : m = message
    · exact .inl (by simp [heq])
    · exact .inr ((Pool.mem_eraseIdx_of_ne hg (by simpa using heq)).mpr hm)
  | flush message channel =>
    exact complete_flushPendingMessages (complete_settle (complete_shift h hg hkeep) message)
      outcome
  | flushFailed message =>
    have hnot : (!client.isReady || client.amqpChannel.isNone) = true := by
      rcases hkeep with hready | hchannel
      · simp [hready]
      · simp [hchannel]
    rw [resume, if_pos hnot]
    exact herase (by simp)

theorem complete_step (h : Complete client) {event : Event} (hkeeps : KeepsQueue client event)
    (hs : Rabbitmq.step client event = some next) : Complete next := by
  cases event with
  | publish outcome =>
    rw [← Option.some.inj hs]
    exact complete_publish h outcome
  | proceed i outcome =>
    obtain ⟨attempt, -, rfl⟩ := Option.map_eq_some_iff.mp hs
    cases attempt with
    | flushing =>
      have hsame : Complete { client with attempts := client.attempts.eraseIdx i } :=
        complete_same h rfl rfl rfl rfl
      exact complete_flushPendingMessages hsame outcome
    | _ => exact complete_same h rfl rfl rfl rfl
  | fail i =>
    obtain ⟨attempt, -, rfl⟩ := Option.map_eq_some_iff.mp hs
    exact complete_same h rfl rfl rfl rfl
  | connectionClosed =>
    rw [← Option.some.inj hs]
    exact complete_onDisconnected h
  | channelClosed =>
    rw [← Option.some.inj hs]
    split_ifs
    · exact complete_onDisconnected h
    · exact h
  | timer =>
    simp only [Rabbitmq.step] at hs
    split_ifs at hs
    rw [← Option.some.inj hs]
    exact complete_connect (complete_same h rfl rfl rfl rfl)
  | resume i outcome =>
    obtain ⟨a, hg, rfl⟩ := Option.map_eq_some_iff.mp hs
    exact complete_resume h hg outcome hkeeps

def Grows (client next : Client) : Prop :=
  next.handedOver = client.handedOver ∨
    ∃ entry, next.handedOver = client.handedOver ++ [entry]

theorem grows_flushPendingMessages (outcome : Rabbitmq.Outcome) :
    Grows client (flushPendingMessages client outcome) := by
  unfold flushPendingMessages
  split
  · cases outcome with
    | accepted => exact .inr ⟨_, rfl⟩
    | thrown => exact .inl rfl
  · exact .inl rfl

theorem handedOver_settle (message : Nat) :
    (settle client message).handedOver = client.handedOver := by
  unfold settle
  split_ifs <;> rfl

theorem handedOver_connect : (connect client).handedOver = client.handedOver := by
  unfold connect
  split_ifs <;> rfl

theorem handedOver_onDisconnected : (onDisconnected client).handedOver = client.handedOver := by
  unfold onDisconnected
  split_ifs <;> rfl

theorem grows_publish (outcome : Rabbitmq.Outcome) : Grows client (publish client outcome) := by
  unfold publish
  split
  · cases outcome with
    | accepted => exact .inr ⟨_, rfl⟩
    | thrown => exact .inl rfl
  · dsimp only
    split_ifs
    · exact .inl handedOver_connect
    · exact .inl rfl

theorem grows_resume (i : Nat) (outcome : Rabbitmq.Outcome) (a : Awaited) :
    Grows client (resume client i outcome a) := by
  have hflush (message : Nat) : Grows client (flushPendingMessages
      (settle (shift { client with awaited := client.awaited.eraseIdx i }) message) outcome) := by
    let settled := settle (shift { client with awaited := client.awaited.eraseIdx i }) message
    have hgrows : Grows settled (flushPendingMessages settled outcome) :=
      grows_flushPendingMessages outcome
    rwa [Grows, handedOver_settle] at hgrows
  cases a with
  | direct message channel => exact .inl (handedOver_settle message)
  | directFailed message => exact .inl handedOver_onDisconnected
  | flush message channel => exact hflush message
  | flushFailed message =>
    unfold resume
    split_ifs
    · exact .inl rfl
    · exact hflush message

theorem grows_step {event : Event} (hs : Rabbitmq.step client event = some next) :
    Grows client next := by
  cases event with
  | publish outcome =>
    rw [← Option.some.inj hs]
    exact grows_publish outcome
  | proceed i outcome =>
    obtain ⟨attempt, -, rfl⟩ := Option.map_eq_some_iff.mp hs
    cases attempt with
    | flushing => exact grows_flushPendingMessages outcome
    | _ => exact .inl rfl
  | fail i =>
    obtain ⟨attempt, -, rfl⟩ := Option.map_eq_some_iff.mp hs
    exact .inl rfl
  | connectionClosed =>
    rw [← Option.some.inj hs]
    exact .inl handedOver_onDisconnected
  | channelClosed =>
    rw [← Option.some.inj hs]
    split_ifs
    · exact .inl handedOver_onDisconnected
    · exact .inl rfl
  | timer =>
    simp only [Rabbitmq.step] at hs
    split_ifs at hs
    rw [← Option.some.inj hs]
    exact .inl handedOver_connect
  | resume i outcome =>
    obtain ⟨a, -, rfl⟩ := Option.map_eq_some_iff.mp hs
    exact grows_resume i outcome a

theorem calls_flushPendingMessages (outcome : Rabbitmq.Outcome) :
    (flushPendingMessages client outcome).calls = client.calls := by
  unfold flushPendingMessages
  split
  · cases outcome <;> rfl
  · rfl

theorem calls_settle (message : Nat) : (settle client message).calls = client.calls := by
  unfold settle
  split_ifs <;> rfl

theorem calls_connect : (connect client).calls = client.calls := by
  unfold connect
  split_ifs <;> rfl

theorem calls_onDisconnected : (onDisconnected client).calls = client.calls := by
  unfold onDisconnected
  split_ifs <;> rfl

theorem calls_publish (outcome : Rabbitmq.Outcome) :
    (publish client outcome).calls = client.calls + 1 := by
  unfold publish
  split
  · cases outcome <;> rfl
  · dsimp only
    split_ifs
    · exact calls_connect
    · rfl

theorem calls_resume (i : Nat) (outcome : Rabbitmq.Outcome) (a : Awaited) :
    (resume client i outcome a).calls = client.calls := by
  have hflush (message : Nat) : (flushPendingMessages
      (settle (shift { client with awaited := client.awaited.eraseIdx i }) message)
        outcome).calls = client.calls := by
    rw [calls_flushPendingMessages, calls_settle]
    rfl
  cases a with
  | direct message channel => exact calls_settle message
  | directFailed message => exact calls_onDisconnected
  | flush message channel => exact hflush message
  | flushFailed message =>
    unfold resume
    split_ifs
    · rfl
    · exact hflush message

theorem calls_step {event : Event} (hs : Rabbitmq.step client event = some next)
    (hnot : isPublish event = false) : next.calls = client.calls := by
  cases event with
  | publish outcome => cases hnot
  | proceed i outcome =>
    obtain ⟨attempt, -, rfl⟩ := Option.map_eq_some_iff.mp hs
    cases attempt with
    | flushing => exact calls_flushPendingMessages outcome
    | _ => rfl
  | fail i =>
    obtain ⟨attempt, -, rfl⟩ := Option.map_eq_some_iff.mp hs
    rfl
  | connectionClosed =>
    rw [← Option.some.inj hs]
    exact calls_onDisconnected
  | channelClosed =>
    rw [← Option.some.inj hs]
    split_ifs
    · exact calls_onDisconnected
    · rfl
  | timer =>
    simp only [Rabbitmq.step] at hs
    split_ifs at hs
    rw [← Option.some.inj hs]
    exact calls_connect
  | resume i outcome =>
    obtain ⟨a, -, rfl⟩ := Option.map_eq_some_iff.mp hs
    exact calls_resume i outcome a

end Queue

-- an intent that the database has and that is to be in force
def Server.Live (s : Server) (id : String) : Prop :=
  (∃ o, s.serviceintents.get id = some o) ∨
    ∃ name fogfunction, s.fogfunctions.get name = some fogfunction ∧
      fogfunction.enabled = true ∧ fogfunction.intent.intent.id = id

-- no handler is under way, and what was published has left the queue
structure Server.Idle (s : Server) : Prop where
  writing : s.writing = []
  publishing : s.publishing = []
  issued : s.sendLoadedIntents = true
  pending : s.client.pendingMessages = []
  awaited : s.client.awaited.countP Rabbitmq.Awaited.failed = 0

-- the intent of a fog function that is disabled or deleted belongs to nothing else
def Sole (s : Server) (name : String) : Prop :=
  ∀ fogfunction, s.fogfunctions.get name = some fogfunction →
    s.serviceintents.get fogfunction.intent.intent.id = none ∧
      ∀ name' other, name' ≠ name → s.fogfunctions.get name' = some other →
        other.enabled = true → other.intent.intent.id ≠ fogfunction.intent.intent.id

def Careful (s : Server) : Label → Prop
  | .publish outcome => Rabbitmq.Orderly s.client (.publish outcome)
  | .connection event _ => Rabbitmq.Orderly s.client event ∧ KeepsQueue s.client event
  | .deleteIntent id => ∀ name fogfunction, s.fogfunctions.get name = some fogfunction →
      fogfunction.enabled = true → fogfunction.intent.intent.id ≠ id
  | .disable name | .deleteFogfunction name => Sole s name
  | _ => True

abbrev about (id : String) (texts : List ServiceIntent) : List ServiceIntent :=
  named ServiceIntent.id id texts

def Server.call (c : IntentObject × String) : ServiceIntent := { c.1.intent with action := c.2 }

-- the texts of the messages as they would be now, and those of the calls still to be made
def Server.line (s : Server) : List ServiceIntent :=
  s.messages.map s.text ++ s.publishing.map Server.call

def EndsInAdd (id : String) (texts : List ServiceIntent) : Prop :=
  ∀ text, (about id texts).getLast? = some text → text.action = "ADD"

def Last (messages : List IntentObject) (m : Nat) (o : IntentObject) : Prop :=
  messages[m]? = some o ∧
    ∀ m' o', m < m' → messages[m']? = some o' → o'.intent.id ≠ o.intent.id

def Delivered (s : Server) : Prop :=
  ∀ m o, Last s.messages m o → handed s.client m →
    (about o.intent.id s.sent).getLast? = some (s.text o)

structure Announced (s : Server) (id : String) : Prop where
  ends : EndsInAdd id s.line
  issued : s.sendLoadedIntents = true → about id s.line ≠ []

structure Announcing (s : Server) : Prop where
  tidy : Rabbitmq.Tidy s.client
  complete : Complete s.client
  calls : s.client.calls = s.messages.length
  keyed : ∀ id o, s.serviceintents.get id = some o → o.intent.id = id
  live : ∀ id, s.Live id → (∃ o ∈ s.writing, o.intent.id = id) ∨ Announced s id
  delivered : Delivered s

variable {s t : Server}

theorem delivered_moved {client : Rabbitmq.Client} (h : Delivered s)
    (hgrows : Grows s.client client) (htidy : Rabbitmq.Tidy client) :
    Delivered (s.moved client) := by
  intro m o hlast hhanded
  rcases hgrows with hsame | ⟨⟨channel, k⟩, hmore⟩
  · have hsent : (s.moved client).sent = s.sent := by simp [Server.moved, hsame]
    obtain ⟨channel, hmem⟩ := hhanded
    rw [hsent]
    exact h m o hlast ⟨channel, hsame ▸ hmem⟩
  · have hsent : (s.moved client).sent = s.sent ++ ((s.messages[k]?).map s.text).toList := by
      simp only [Server.moved, hmore, List.drop_left]
      cases hk : s.messages[k]? <;> simp [hk]
    have hhanded' : m = k ∨ handed s.client m := by
      obtain ⟨channel', hmem⟩ := hhanded
      rw [show (s.moved client).client = client from rfl, hmore] at hmem
      rcases List.mem_append.mp hmem with hold | hnew
      · exact .inr ⟨channel', hold⟩
      · exact .inl (Prod.mk.inj (List.mem_singleton.mp hnew)).2
    have hlast' : Last s.messages m o := hlast
    change (about o.intent.id (s.moved client).sent).getLast? = some (s.text o)
    rw [hsent, about, named_append]
    cases hk : s.messages[k]? with
    | none =>
      have hne : m ≠ k := by
        rintro rfl
        have hsome := hlast'.1
        rw [hk] at hsome
        cases hsome
      simp only [Option.map_none, Option.toList_none, named, List.filter_nil, List.append_nil]
      exact h m o hlast' (hhanded'.resolve_left hne)
    | some o' =>
      by_cases hid : o'.intent.id = o.intent.id
      · have hle : k ≤ m := by
          by_contra hlt
          exact hlast'.2 k o' (by omega) hk hid
        have hge : m ≤ k := by
          rcases hhanded' with rfl | ⟨channel', hmem⟩
          · exact le_refl _
          · have hordered := htidy.inOrder.ordered
            rw [hmore, List.map_append, List.pairwise_append] at hordered
            exact hordered.2.2 m (List.mem_map_of_mem hmem) k (by simp)
        obtain rfl : m = k := by omega
        obtain rfl : o' = o := Option.some.inj (hk.symm.trans hlast'.1)
        have hnamed : named ServiceIntent.id o'.intent.id [s.text o'] = [s.text o'] := by
          simp [named, Server.text]
        simp only [Option.map_some, Option.toList_some, hnamed, List.getLast?_append,
          List.getLast?_singleton, Option.some_or]
      · have hne : m ≠ k := by
          rintro rfl
          exact hid (congrArg (fun o => o.intent.id) (Option.some.inj (hk.symm.trans hlast'.1)))
        have hnamed : named ServiceIntent.id o.intent.id [s.text o'] = [] := by
          simp [named, Server.text, hid]
        simp only [Option.map_some, Option.toList_some, hnamed, List.append_nil]
        exact h m o hlast' (hhanded'.resolve_left hne)

section Line

variable {id : String} {xs : List ServiceIntent} {text : ServiceIntent}

theorem Announced.of_about (h : Announced s id) (hline : about id t.line = about id s.line)
    (hissued : t.sendLoadedIntents = s.sendLoadedIntents) : Announced t id :=
  ⟨fun text htext => h.ends text (hline ▸ htext), fun hi => hline ▸ h.issued (hissued ▸ hi)⟩

theorem announced_add (hline : t.line = xs ++ [text]) (hid : text.id = id)
    (hadd : text.action = "ADD") : Announced t id := by
  have hlast : (about id t.line).getLast? = some text := by
    rw [hline, about, named_append, named_singleton, if_pos hid, List.getLast?_append]
    rfl
  refine ⟨fun last h => ?_, fun _ hnone => ?_⟩
  · rw [hlast] at h
    rw [← Option.some.inj h]
    exact hadd
  · rw [hnone] at hlast
    cases hlast

theorem about_append_of_ne (hid : text.id ≠ id) : about id (xs ++ [text]) = about id xs := by
  rw [about, named_append, named_singleton, if_neg hid, List.append_nil]

end Line

theorem announcing_moved (h : Announcing s) {client : Rabbitmq.Client}
    (hgrows : Grows s.client client) (htidy : Rabbitmq.Tidy client) (hcomplete : Complete client)
    (hcalls : client.calls = s.client.calls) : Announcing (s.moved client) where
  tidy := htidy
  complete := hcomplete
  calls := hcalls.trans h.calls
  keyed := h.keyed
  live id hlive := (h.live id hlive).imp_right (fun ha => ⟨ha.ends, ha.issued⟩)
  delivered := delivered_moved h.delivered hgrows htidy

theorem announcing_postIntent (h : Announcing s) (serviceintent : ServiceIntent) :
    Announcing (postIntent s serviceintent) where
  tidy := h.tidy
  complete := h.complete
  calls := h.calls
  keyed id o ho := by
    simp only [postIntent, GoMap.get_set] at ho
    split_ifs at ho with hid
    · rw [← Option.some.inj ho, hid]
    · exact h.keyed id o ho
  live id hlive := by
    have hkeep (hold : s.Live id) : (∃ o ∈ (postIntent s serviceintent).writing,
        o.intent.id = id) ∨ Announced (postIntent s serviceintent) id := by
      rcases h.live id hold with ⟨o, hmem, hid⟩ | ha
      · exact .inl ⟨o, List.mem_append_left _ hmem, hid⟩
      · exact .inr ⟨ha.ends, ha.issued⟩
    rcases hlive with ⟨o, ho⟩ | hfunction
    · simp only [postIntent, GoMap.get_set] at ho
      split_ifs at ho with hid
      · exact .inl ⟨_, List.mem_append_right _ List.mem_cons_self, hid.symm⟩
      · exact hkeep (.inl ⟨o, ho⟩)
    · exact hkeep (.inr hfunction)
  delivered := h.delivered

theorem line_call (hnone : s.publishing = []) (o : IntentObject) (action : String)
    (serviceintents : GoMap IntentObject) (fogfunctions : GoMap FogFunction)
    (writing : List IntentObject) :
    Server.line { s with
      serviceintents := serviceintents
      fogfunctions := fogfunctions
      writing := writing
      publishing := [(o, action)] } = s.line ++ [Server.call (o, action)] := by
  simp only [Server.line, hnone, List.map_nil, List.append_nil]
  rfl

theorem announcing_written (h : Announcing s) (hnone : s.publishing = []) {i : Nat}
    {o : IntentObject} (hi : s.writing[i]? = some o) :
    Announcing { s with
      writing := s.writing.eraseIdx i
      publishing := [(o, "ADD")] } := by
  have hline := line_call hnone o "ADD" s.serviceintents s.fogfunctions (s.writing.eraseIdx i)
  refine ⟨h.tidy, h.complete, h.calls, h.keyed, fun id hlive => ?_, h.delivered⟩
  by_cases hid : o.intent.id = id
  · exact .inr (announced_add hline hid rfl)
  · rcases h.live id hlive with ⟨o', hmem, hid'⟩ | ha
    · refine .inl ⟨o', (Pool.mem_eraseIdx_of_ne hi ?_).mpr hmem, hid'⟩
      rintro rfl
      exact hid hid'
    · exact .inr (ha.of_about (by rw [hline]; exact about_append_of_ne hid) rfl)

-- a deletion is announced for an intent that is live no more
theorem live_of_deleted (h : Announcing s) (hnone : s.publishing = []) {o : IntentObject}
    {serviceintents : GoMap IntentObject} {fogfunctions : GoMap FogFunction}
    (hkeyed : ∀ id o, serviceintents.get id = some o → o.intent.id = id)
    (hlive : ∀ id, Server.Live { s with
        serviceintents := serviceintents
        fogfunctions := fogfunctions
        publishing := [(o, "DELETE")] } id → s.Live id ∧ o.intent.id ≠ id) :
    Announcing { s with
      serviceintents := serviceintents
      fogfunctions := fogfunctions
      publishing := [(o, "DELETE")] } := by
  have hline := line_call hnone o "DELETE" serviceintents fogfunctions s.writing
  refine ⟨h.tidy, h.complete, h.calls, hkeyed, fun id hid => ?_, h.delivered⟩
  obtain ⟨hold, hne⟩ := hlive id hid
  refine (h.live id hold).imp_right (fun ha => ?_)
  exact ha.of_about (by rw [hline]; exact about_append_of_ne hne) rfl

theorem announcing_deleteIntent (h : Announcing s) (hnone : s.publishing = []) {id : String}
    (hcareful : Careful s (.deleteIntent id)) : Announcing (deleteIntent s id) := by
  unfold deleteIntent
  split
  · exact h
  · next o ho =>
    refine live_of_deleted h hnone (fun id' o' ho' => h.keyed id' o'
      (GoMap.get_of_get_delete ho').2) (fun id' hlive => ?_)
    rw [h.keyed id o ho]
    rcases hlive with ⟨o', ho'⟩ | ⟨name, f, hf, henabled, hid'⟩
    · obtain ⟨hne, hold⟩ := GoMap.get_of_get_delete ho'
      exact ⟨.inl ⟨o', hold⟩, hne.symm⟩
    · refine ⟨.inr ⟨name, f, hf, henabled, hid'⟩, ?_⟩
      rintro rfl
      exact hcareful name f hf henabled hid'

theorem announcing_deleteFogfunction (h : Announcing s) (hnone : s.publishing = []) {name : String}
    (hsole : Sole s name) : Announcing (deleteFogfunction s name) := by
  unfold deleteFogfunction
  split
  · exact h
  · next f hf =>
    obtain ⟨hservice, hother⟩ := hsole f hf
    refine live_of_deleted h hnone h.keyed (fun id hlive => ?_)
    rcases hlive with ⟨o, ho⟩ | ⟨name', f', hf', henabled, hid⟩
    · refine ⟨.inl ⟨o, ho⟩, ?_⟩
      rintro rfl
      exact absurd (hservice.symm.trans ho) (by simp)
    · obtain ⟨hne, hold⟩ := GoMap.get_of_get_delete hf'
      refine ⟨.inr ⟨name', f', hold, henabled, hid⟩, ?_⟩
      rintro rfl
      exact hother name' f' hne hold henabled hid

theorem announcing_disable (h : Announcing s) (hnone : s.publishing = []) {name : String}
    (hsole : Sole s name) (ht : setStatus s name false "DELETE" = some t) : Announcing t := by
  obtain ⟨f, hf, rfl⟩ := Option.map_eq_some_iff.mp ht
  obtain ⟨hservice, hother⟩ := hsole f hf
  refine live_of_deleted h hnone h.keyed (fun id hlive => ?_)
  rcases hlive with ⟨o, ho⟩ | ⟨name', f', hf', henabled, hid⟩
  · refine ⟨.inl ⟨o, ho⟩, ?_⟩
    rintro rfl
    exact absurd (hservice.symm.trans ho) (by simp)
  · simp only [GoMap.get_set] at hf'
    split_ifs at hf' with hne
    · rw [← Option.some.inj hf'] at henabled
      cases henabled
    · refine ⟨.inr ⟨name', f', hf', henabled, hid⟩, ?_⟩
      rintro rfl
      exact hother name' f' hne hf' henabled hid

theorem announcing_enable (h : Announcing s) (hnone : s.publishing = []) {name : String}
    (ht : setStatus s name true "ADD" = some t) : Announcing t := by
  obtain ⟨f, hf, rfl⟩ := Option.map_eq_some_iff.mp ht
  have hline := line_call hnone f.intent "ADD" s.serviceintents
    (s.fogfunctions.set name { f with enabled := true }) s.writing
  refine ⟨h.tidy, h.complete, h.calls, h.keyed, fun id hlive => ?_, h.delivered⟩
  by_cases hid : f.intent.intent.id = id
  · exact .inr (announced_add hline hid rfl)
  · have hold : s.Live id := by
      rcases hlive with hservice | ⟨name', f', hf', henabled, hid'⟩
      · exact .inl hservice
      · simp only [GoMap.get_set] at hf'
        split_ifs at hf' with hname
        · rw [← Option.some.inj hf'] at hid'
          exact absurd hid' hid
        · exact .inr ⟨name', f', hf', henabled, hid'⟩
    refine (h.live id hold).imp_right (fun ha => ?_)
    exact ha.of_about (by rw [hline]; exact about_append_of_ne hid) rfl

theorem announcing_postFogfunction (h : Announcing s) (fogfunction : String × ServiceIntent) :
    Announcing (postFogfunction s fogfunction) := by
  have hline : (postFogfunction s fogfunction).line =
      s.line ++ [Server.call (⟨.posted s.made, fogfunction.2⟩, "ADD")] := by
    simp only [Server.line, postFogfunction, List.map_append, List.append_assoc]
    rfl
  refine ⟨h.tidy, h.complete, h.calls, h.keyed, fun id hlive => ?_, h.delivered⟩
  by_cases hid : fogfunction.2.id = id
  · exact .inr (announced_add hline hid rfl)
  · have hold : s.Live id := by
      rcases hlive with hservice | ⟨name', f', hf', henabled, hid'⟩
      · exact .inl hservice
      · simp only [postFogfunction, GoMap.get_set] at hf'
        split_ifs at hf' with hname
        · rw [← Option.some.inj hf'] at hid'
          exact absurd hid' hid
        · exact .inr ⟨name', f', hf', henabled, hid'⟩
    refine (h.live id hold).imp_right (fun ha => ?_)
    exact ha.of_about (by rw [hline]; exact about_append_of_ne hid) rfl

theorem announcing_postFogfunctions (h : Announcing s)
    (fogfunctions : List (String × ServiceIntent)) :
    Announcing (fogfunctions.foldl postFogfunction s) := by
  induction fogfunctions generalizing s with
  | nil => exact h
  | cons fogfunction rest ih => exact ih (announcing_postFogfunction h fogfunction)

theorem mem_loadedIntents {id : String} (h : Announcing s) (rank : String → Nat)
    (hlive : s.Live id) : ∃ o ∈ loadedIntents s rank, o.intent.id = id := by
  rcases hlive with ⟨o, ho⟩ | ⟨name, f, hf, henabled, hid⟩
  · refine ⟨o, List.mem_append_left _ ?_, h.keyed id o ho⟩
    exact List.mem_map.mpr ⟨⟨id, o⟩, GoMap.mem_range.mpr ho, rfl⟩
  · refine ⟨f.intent, List.mem_append_right _ ?_, hid⟩
    refine List.mem_map.mpr ⟨⟨name, f⟩, List.mem_filter.mpr ⟨?_, henabled⟩, rfl⟩
    exact GoMap.mem_range.mpr hf

theorem announcing_issueLoadedIntents (h : Announcing s) (rank : String → Nat) :
    Announcing (issueLoadedIntents s rank) := by
  unfold issueLoadedIntents
  split_ifs
  · exact h
  refine ⟨h.tidy, h.complete, h.calls, h.keyed, fun id hlive => .inr ?_, h.delivered⟩
  obtain ⟨o, hmem, hid⟩ := mem_loadedIntents h rank hlive
  have hloaded : ∀ text ∈ about id (((loadedIntents s rank).map (fun o => (o, "ADD"))).map
      Server.call), text.action = "ADD" := by
    intro text htext
    obtain ⟨c, hc, rfl⟩ := List.mem_map.mp (mem_named.mp htext).1
    obtain ⟨o', -, rfl⟩ := List.mem_map.mp hc
    rfl
  have hne : about id (((loadedIntents s rank).map (fun o => (o, "ADD"))).map Server.call) ≠ [] :=
    List.ne_nil_of_mem (mem_named.mpr ⟨List.mem_map_of_mem (List.mem_map_of_mem hmem), hid⟩)
  obtain ⟨last, hlast⟩ := Option.ne_none_iff_exists'.mp (List.getLast?_eq_none_iff.not.mpr hne)
  constructor
  · intro text htext
    rw [Server.line, about, named_append, List.getLast?_append, hlast, Option.some_or] at htext
    rw [← Option.some.inj htext]
    exact hloaded last (List.mem_of_getLast? hlast)
  · intro _ hnone
    rw [Server.line, about, named_append] at hnone
    exact hne (List.append_eq_nil_iff.mp hnone).2

-- the call under way changes only texts about its own intent, and itself comes after them
theorem announced_publish {o : IntentObject} {action : String}
    {rest : List (IntentObject × String)} (hcall : s.publishing = (o, action) :: rest) {id : String}
    (h : Announced s id) (haction : t.action = Function.update s.action o action)
    (hmessages : t.messages = s.messages ++ [o]) (hrest : t.publishing = rest)
    (hissued : t.sendLoadedIntents = s.sendLoadedIntents) : Announced t id := by
  have hown : t.text o = Server.call (o, action) := by
    simp [haction, Server.text, Server.call]
  have hold : s.line = s.messages.map s.text ++ Server.call (o, action) :: rest.map Server.call := by
    rw [Server.line, hcall, List.map_cons]
  have hnew : t.line = s.messages.map t.text ++ Server.call (o, action) :: rest.map Server.call := by
    rw [Server.line, hmessages, hrest, List.map_append, List.map_singleton, hown,
      List.append_assoc, List.singleton_append]
  by_cases hid : o.intent.id = id
  · have hends (texts : List ServiceIntent) :
        about id (texts ++ Server.call (o, action) :: rest.map Server.call) =
          about id texts ++ Server.call (o, action) :: about id (rest.map Server.call) := by
      have hcallid : (Server.call (o, action)).id = id := hid
      rw [about, named_append, named_cons, if_pos hcallid]
    have hlast (texts : List ServiceIntent) :
        (about id (texts ++ Server.call (o, action) :: rest.map Server.call)).getLast? =
          (Server.call (o, action) :: about id (rest.map Server.call)).getLast? := by
      rw [hends, List.getLast?_append]
      cases about id (rest.map Server.call) <;> simp [List.getLast?_cons]
    refine ⟨fun text htext => h.ends text ?_, fun _ hnone => ?_⟩
    · rw [hnew, hlast] at htext
      rw [hold, hlast]
      exact htext
    · rw [hnew, hends] at hnone
      simp at hnone
  · refine h.of_about ?_ hissued
    have hsame : about id (s.messages.map t.text) = about id (s.messages.map s.text) := by
      have hid' (u : Server) : about id (s.messages.map u.text) =
          (s.messages.filter (fun o' => o'.intent.id == id)).map u.text :=
        List.filter_map
      rw [hid', hid']
      refine List.map_congr_left (fun o' ho' => ?_)
      have hne : o' ≠ o := by
        rintro rfl
        exact hid (by simpa using (List.mem_filter.mp ho').2)
      simp [haction, Server.text, Function.update_of_ne hne]
    rw [hnew, hold, about, named_append, ← about, hsame, about, ← named_append]

theorem announcing_publishMetadata (h : Announcing s) {o : IntentObject} {action : String}
    {rest : List (IntentObject × String)} (hcall : s.publishing = (o, action) :: rest)
    {outcome : Rabbitmq.Outcome} (horderly : Rabbitmq.Orderly s.client (.publish outcome)) :
    Announcing (publishMetadata s o action rest outcome) := by
  have htidy := Rabbitmq.tidy_publish h.tidy horderly
  refine ⟨htidy, complete_publish h.complete outcome, ?_, h.keyed, fun id hlive => ?_, ?_⟩
  · change (Rabbitmq.publish s.client outcome).calls = (s.messages ++ [o]).length
    rw [calls_publish, h.calls, List.length_append, List.length_singleton]
  · exact (h.live id hlive).imp_right (fun ha => announced_publish hcall ha rfl rfl rfl rfl)
  · refine delivered_moved ?_ (grows_publish outcome) htidy
    -- only a message of before the call is handed over, and the last about its intent is not o
    rintro m o' ⟨hm, hafter⟩ ⟨channel, hhanded⟩
    have hlt : m < s.messages.length := h.calls ▸ h.tidy.handedBound _ hhanded
    have hold : Last s.messages m o' := by
      refine ⟨by simpa [List.getElem?_append_left hlt] using hm, fun m' o'' hm' ho'' => ?_⟩
      exact hafter m' o'' hm' (List.getElem?_append_left
        (List.getElem?_eq_some_iff.mp ho'').1 ▸ ho'')
    have hid : o.intent.id ≠ o'.intent.id := hafter s.messages.length o hlt (by simp)
    have hne : o' ≠ o := by
      rintro rfl
      exact hid rfl
    have htext : Server.text { s with action := Function.update s.action o action } o' =
        s.text o' := by
      simp [Server.text, Function.update_of_ne hne]
    exact (h.delivered m o' hold ⟨channel, hhanded⟩).trans (congrArg some htext.symm)

theorem announcing_connection (h : Announcing s) {event : Rabbitmq.Event} {rank : String → Nat}
    (hcareful : Careful s (.connection event rank)) (ht : connection s event rank = some t) :
    Announcing t := by
  obtain ⟨horderly, hkeeps⟩ := hcareful
  unfold connection at ht
  by_cases hnot : isPublish event = true
  · rw [if_pos hnot] at ht
    cases ht
  rw [if_neg hnot] at ht
  obtain ⟨client, hclient, rfl⟩ := Option.map_eq_some_iff.mp ht
  have hmoved : Announcing (s.moved client) :=
    announcing_moved h (grows_step hclient) (Rabbitmq.tidy_step h.tidy horderly hclient)
      (complete_step h.complete hkeeps hclient) (calls_step hclient (Bool.eq_false_iff.mpr hnot))
  split_ifs
  · exact announcing_issueLoadedIntents hmoved rank
  · exact hmoved

theorem announcing_restart (s : Server) {db : Database} (hkeyed : db.keyed = true) :
    Announcing (restart s db) where
  tidy := Rabbitmq.tidy_init
  complete := complete_init
  calls := rfl
  keyed id o ho := by
    simp only [restart, GoMap.get_map] at ho
    obtain ⟨intent, hintent, rfl⟩ := Option.map_eq_some_iff.mp ho
    have hentry := List.all_eq_true.mp hkeyed ⟨id, intent⟩ (GoMap.mem_entries.mpr hintent)
    exact beq_iff_eq.mp hentry
  live id _ := .inr ⟨nofun, nofun⟩
  delivered := fun m o hlast => by simp [restart, Server.init, Last] at hlast

theorem announcing_init : Announcing .init where
  tidy := Rabbitmq.tidy_init
  complete := complete_init
  calls := rfl
  keyed id o ho := by simp [Server.init] at ho
  live id hlive := by simp [Server.Live, Server.init] at hlive
  delivered := fun m o hlast => by simp [Server.init, Last] at hlast

theorem announcing_step (h : Announcing s) {label : Label} (hcareful : Careful s label)
    (ht : step s label = some t) : Announcing t := by
  unfold step at ht
  split at ht
  · next outcome o action rest hcall =>
    rw [← Option.some.inj ht]
    exact announcing_publishMetadata h hcall hcareful
  · next serviceintent _ =>
    rw [← Option.some.inj ht]
    exact announcing_postIntent h serviceintent
  · next i hnone =>
    obtain ⟨o, ho, rfl⟩ := Option.map_eq_some_iff.mp ht
    exact announcing_written h hnone ho
  · next id hnone =>
    rw [← Option.some.inj ht]
    exact announcing_deleteIntent h hnone hcareful
  · next fogfunctions _ =>
    rw [← Option.some.inj ht]
    exact announcing_postFogfunctions h fogfunctions
  · next name hnone => exact announcing_enable h hnone ht
  · next name hnone => exact announcing_disable h hnone hcareful ht
  · next name hnone =>
    rw [← Option.some.inj ht]
    exact announcing_deleteFogfunction h hnone hcareful
  · next event rank _ => exact announcing_connection h hcareful ht
  · next db =>
    split_ifs at ht with hkeyed
    rw [← Option.some.inj ht]
    exact announcing_restart s hkeyed
  · cases ht

theorem last_about (f : IntentObject → ServiceIntent) (hf : ∀ o, (f o).id = o.intent.id)
    (messages : List IntentObject) {id : String} (hne : about id (messages.map f) ≠ []) :
    ∃ m o, Last messages m o ∧ o.intent.id = id ∧
      (about id (messages.map f)).getLast? = some (f o) := by
  induction messages using List.reverseRecOn with
  | nil => exact absurd rfl hne
  | append_singleton messages x ih =>
    rw [List.map_append, List.map_singleton, about, named_append, named_singleton, hf] at hne ⊢
    by_cases hid : x.intent.id = id
    · refine ⟨messages.length, x, ⟨by simp, fun m' o' hm' ho' => ?_⟩, hid, by simp [hid]⟩
      have hlt := (List.getElem?_eq_some_iff.mp ho').1
      rw [List.length_append, List.length_singleton] at hlt
      omega
    · rw [if_neg hid, List.append_nil] at hne ⊢
      obtain ⟨m, o, ⟨hm, hafter⟩, ho, hlast⟩ := ih hne
      have hlt := (List.getElem?_eq_some_iff.mp hm).1
      refine ⟨m, o, ⟨by simpa [List.getElem?_append_left hlt] using hm, fun m' o' hm' ho' => ?_⟩,
        ho, hlast⟩
      by_cases hend : m' < messages.length
      · exact hafter m' o' hm' (List.getElem?_append_left hend ▸ ho')
      · have hlen := (List.getElem?_eq_some_iff.mp ho').1
        rw [List.length_append, List.length_singleton] at hlen
        obtain rfl : m' = messages.length := by omega
        obtain rfl : x = o' := by simpa using ho'
        rw [ho]
        exact hid

-- when all is quiet every message has been handed over, the last one about an intent after the rest
theorem Announcing.sent (h : Announcing s) (hidle : s.Idle) {id : String} (hlive : s.Live id) :
    ∃ text, (about id s.sent).getLast? = some text ∧ text.action = "ADD" := by
  have hnot : ¬ ∃ o ∈ s.writing, o.intent.id = id := by simp [hidle.writing]
  obtain ⟨hends, hissued⟩ := (h.live id hlive).resolve_left hnot
  have hline : s.line = s.messages.map s.text := by simp [Server.line, hidle.publishing]
  rw [EndsInAdd, hline] at hends
  rw [hline] at hissued
  obtain ⟨m, o, hlast, hid, hgetLast⟩ := last_about s.text (fun _ => rfl) s.messages
    (hissued hidle.issued)
  have hhanded : handed s.client m := by
    have hlt : m < s.client.calls := by
      rw [h.calls]
      exact (List.getElem?_eq_some_iff.mp hlast.1).1
    rcases h.complete.kept m hlt with hhanded | hqueued | hfailed
    · exact hhanded
    · simp [hidle.pending] at hqueued
    · exact absurd hfailed (Rabbitmq.no_failed hidle.awaited m)
  exact ⟨s.text o, hid ▸ h.delivered m o hlast hhanded, hends _ hgetLast⟩

theorem announcing_exec {labels : List Label} (hcareful : Meets step Careful .init labels)
    (hrun : exec step .init labels = some s) : Announcing s :=
  exec_induction_of_meets (motive := fun _ s => Announcing s) hcareful hrun announcing_init
    (fun _ _ _ _ _ _ h hc ht => announcing_step h hc ht)

end FogFlow.Designer.Intents
