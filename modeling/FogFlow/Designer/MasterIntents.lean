import FogFlow.Designer.Announcement
import FogFlow.Master.ServiceMgr

namespace FogFlow.Designer.Intents

open Datamodel Execution Named Master

def handled (labels : List ServiceMgr.Label) : List ServiceIntent :=
  labels.filterMap (fun label => match label with
    | .handle sIntent _ _ _ => some sIntent
    | .notify _ => none)

def FindsTopology : ServiceMgr.Label → Prop
  | .handle _ topology _ _ => topology ≠ none
  | .notify _ => True

section Master

variable {marshal : GroupValue → String} {m m' : ServiceMgr.System} {rank : String → Nat}

theorem serviceIntentMap_handleTaskIntents (m : ServiceMgr.System) (sIntent : ServiceIntent)
    (serviceIntentID : String) (tasks : List Task) (subIDs : Nat → Nat → String) :
    (ServiceMgr.handleTaskIntents m sIntent serviceIntentID tasks subIDs).serviceIntentMap =
      m.serviceIntentMap.set sIntent.id sIntent := by
  simp only [ServiceMgr.handleTaskIntents]
  rw [(ServiceMgr.frame_handleTaskIntent _ m _).2.1]

theorem serviceIntentMap_handle (m : ServiceMgr.System) (sIntent : ServiceIntent)
    (topology : Topology) (subIDs : Nat → Nat → String)
    (hfault : (ServiceMgr.handleServiceIntentUpdate m sIntent (some topology) subIDs rank).fault =
      none) :
    (ServiceMgr.handleServiceIntentUpdate m sIntent (some topology) subIDs
        rank).serviceIntentMap =
      if sIntent.action = "DELETE" then m.serviceIntentMap.delete sIntent.id
      else m.serviceIntentMap.set sIntent.id sIntent := by
  unfold ServiceMgr.handleServiceIntentUpdate at hfault ⊢
  split_ifs at hfault ⊢
  · unfold ServiceMgr.removeServiceIntent at hfault ⊢
    dsimp only at hfault ⊢
    split_ifs at hfault ⊢ with hsome
    · rw [hfault] at hsome
      cases hsome
    · exact congrArg (fun map => GoMap.delete map sIntent.id)
        (ServiceMgr.maps_removeTaskIntents rank _).2
  · unfold ServiceMgr.handleServiceIntent
    split_ifs
    · exact serviceIntentMap_handleTaskIntents ..
    · exact serviceIntentMap_handleTaskIntents ..

theorem serviceIntentMap_notify {e : Event} (h : ServiceMgr.notify marshal m e = some m') :
    m'.serviceIntentMap = m.serviceIntentMap := by
  unfold ServiceMgr.notify at h
  split at h
  · rw [← Option.some.inj h]
  · split at h
    · rw [← Option.some.inj h]
    · split at h
      · cases h
      · rw [← Option.some.inj h]

-- what the master has recorded is what the last message about the intent said
theorem get_serviceIntentMap {labels : List ServiceMgr.Label}
    (hrun : exec (ServiceMgr.step marshal) ServiceMgr.start labels = some m)
    (hfound : ∀ label ∈ labels, FindsTopology label) (hfault : m.fault = none) (id : String) :
    m.serviceIntentMap.get id =
      ((about id (handled labels)).getLast?).filter (fun text => text.action != "DELETE") := by
  have key : (∀ label ∈ labels, FindsTopology label) → m.fault = none →
      m.serviceIntentMap.get id =
        ((about id (handled labels)).getLast?).filter (fun text => text.action != "DELETE") := by
    refine exec_induction (motive := fun labels m => (∀ label ∈ labels, FindsTopology label) →
      m.fault = none → m.serviceIntentMap.get id =
        ((about id (handled labels)).getLast?).filter (fun text => text.action != "DELETE"))
      hrun (fun _ _ => rfl) ?_
    intro js label r t _ _ ih ht hfound hfault
    have hfound' : ∀ label ∈ js, FindsTopology label :=
      fun l hl => hfound l (List.mem_append_left _ hl)
    have happend : handled (js ++ [label]) = handled js ++ handled [label] :=
      List.filterMap_append
    rw [happend, about, named_append]
    cases label with
    | notify e =>
      simp only [ServiceMgr.step] at ht
      split_ifs at ht with hr
      rw [serviceIntentMap_notify ht, ih hfound' hr]
      simp [handled, named]
    | handle sIntent topology subIDs rank =>
      simp only [ServiceMgr.step] at ht
      split_ifs at ht with hr
      obtain rfl := Option.some.inj ht
      have hsome : topology ≠ none := hfound _ (List.mem_append_right _ List.mem_cons_self)
      obtain ⟨topology, rfl⟩ := Option.ne_none_iff_exists'.mp hsome
      rw [serviceIntentMap_handle r sIntent topology subIDs hfault]
      have hone : handled [.handle sIntent (some topology) subIDs rank] = [sIntent] := rfl
      rw [hone, named_singleton]
      by_cases hid : sIntent.id = id
      · subst hid
        by_cases hdelete : sIntent.action = "DELETE"
        · simp [hdelete, GoMap.get_delete, Option.filter]
        · simp [hdelete, Option.filter]
      · have hne : id ≠ sIntent.id := fun h => hid h.symm
        rw [if_neg hid, List.append_nil, ← ih hfound' hr.1]
        split_ifs
        · rw [GoMap.get_delete_ne _ hne]
        · rw [GoMap.get_set_ne _ _ hne]
  exact key hfound hfault

end Master

-- steps of a run whose calls of Publish find no other one under way
def unhurried (s : Server) : Label → Bool
  | .publish _ => s.client.awaited.isEmpty && s.client.pendingMessages.isEmpty
  | .connection event _ => !isPublish event && s.client.awaited.all (fun a => match a with
      | .direct _ _ => true
      | _ => false)
  | .postIntent _ | .written _ | .restart _ => true
  | _ => false

theorem careful_of_unhurried {s : Server} {label : Label} (h : unhurried s label = true) :
    Careful s label := by
  cases label with
  | publish outcome =>
    obtain ⟨hawaited, hpending⟩ := Bool.and_eq_true_iff.mp h
    refine ⟨?_, fun _ _ => List.isEmpty_iff.mp hpending⟩
    rw [List.isEmpty_iff.mp hawaited]
    rfl
  | connection event rank =>
    obtain ⟨hnot, hall⟩ := Bool.and_eq_true_iff.mp h
    have hdirect : ∀ a ∈ s.client.awaited, ∃ message channel, a = .direct message channel := by
      intro a ha
      have hcase := List.all_eq_true.mp hall a ha
      cases a with
      | direct message channel => exact ⟨message, channel, rfl⟩
      | _ => cases hcase
    cases event with
    | publish outcome => cases hnot
    | proceed i outcome =>
      refine ⟨fun _ message channel hmem => ?_, trivial⟩
      obtain ⟨_, _, heq⟩ := hdirect _ hmem
      cases heq
    | resume i outcome =>
      refine ⟨trivial, fun a ha => ?_⟩
      obtain ⟨message, channel, rfl⟩ := hdirect a (List.mem_of_getElem? ha)
      trivial
    | _ => exact ⟨trivial, trivial⟩
  | postIntent | written | restart => trivial
  | _ => cases h

def watch : ServiceIntent := ⟨"watch", ⟨"global", .string "global"⟩, ⟨false, 0⟩, "alarm", ""⟩

def connecting : List Label := List.replicate 3 (.connection (.proceed 0 .accepted) (fun _ => 0))

-- the designer is told of an intent, stops, and begins anew with what it has written
def watchLabels : List Label :=
  connecting ++ [.connection (.proceed 0 .accepted) (fun _ => 0), .postIntent watch, .written 0,
    .publish .accepted, .connection (.resume 0 .accepted) (fun _ => 0),
    .restart ⟨(∅ : GoMap ServiceIntent).set "watch" watch, ∅⟩] ++ connecting ++
      [.publish .accepted]

def watchHandling : List ServiceMgr.Label :=
  List.replicate 2 (.handle { watch with action := "ADD" } (some ⟨"alarm", []⟩)
    (fun _ _ => "") (fun _ => 0))

def watchSent : List ServiceIntent := List.replicate 2 { watch with action := "ADD" }

theorem watchLabels_done : (exec step .init watchLabels).map (fun s =>
    (s.writing, s.publishing, s.sendLoadedIntents, s.client.pendingMessages,
      s.client.awaited.countP Rabbitmq.Awaited.failed, s.sent,
      (s.serviceintents.get "watch").isSome)) =
    some ([], [], true, [], 0, watchSent, true) := by
  rfl

end FogFlow.Designer.Intents
