/-
Traffic of a group that was left. `leaveMulticast` forgets the context of a group and nothing else: the name keeps
its old node ids, and the sessions of those ids stay active. `getMulticastContext` of such a session goes by the
name, so the old queues are silent while the address is not joined (`left_group_silent_iff`), and are sent to the
new group when it is joined again (`stale_packet_posted`).
-/
import RapidTransfer.Context.Backoff

namespace RapidTransfer.ContextMcast

open RapidTransfer.Core

/-! ## Names of node ids -/

theorem ControllerStep.wf {c c' : Controller} {e : Event} (hs : ControllerStep c e c') (h : c.WF) : c'.WF := by
  cases hs with
  | same => exact h
  | register => exact Controller.registerNode_wf h _ _ _
  | join => exact Controller.joinMulticast_wf h _ _
  | leave =>
    unfold Controller.leaveMulticast
    split
    · exact ⟨h.addr, h.name, h.rev, h.revLt, h.addrRev⟩
    · exact h
  | replicas => exact ⟨h.addr, h.name, h.rev, h.revLt, h.addrRev⟩

/-- A node id keeps its name: new names take new ids. -/
theorem ControllerStep.revName {c c' : Controller} {e : Event} (hs : ControllerStep c e c') (h : c.WF) {id : Nat}
    {name : String} (hn : c.peerNameRevMap id = some name) : c'.peerNameRevMap id = some name := by
  have hne : id ≠ c.nextNodeId := (h.revLt id name hn).ne
  cases hs with
  | same => exact hn
  | register => simp [Controller.registerNode, hne, hn]
  | @join addr constructed =>
    obtain ⟨-, he⟩ | ⟨-, -, he⟩ | ⟨-, -, he⟩ := c.joinMulticast_cases addr constructed
    · rw [he]; exact hn
    · rw [he]; exact hn
    · simp [he, hne, hn]
  | leave =>
    unfold Controller.leaveMulticast
    split
    · exact hn
    · exact hn
  | replicas => exact hn

/-- The group of a session is the one that has the name of its node. -/
theorem getMulticastContextOfSession_eq_none {c : Controller} {sid : Nat} {name : String}
    (hn : c.peerNameRevMap (sid / 256) = some name) :
    c.getMulticastContextOfSession sid = none ↔ name ∉ c.multicastContextMap := by
  unfold Controller.getMulticastContextOfSession
  rw [hn, Option.bind_some, AList.lookup_eq_none]

/-- What the theorem needs of a state: the maps of the controller, and a timer that some time exceeds. -/
structure Timed (c : ContextMcast) : Prop where
  wf : c.controller.WF
  rtoLo : kMinRTO ≤ c.recvRto
  rtoHi : c.recvRto ≤ kMaxRTO

theorem Timed.step {c c' : ContextMcast} {e : Event} (h : Timed c) (hs : ContextMcast.step c e = some c') :
    Timed c' := by
  obtain ⟨hctrl, hrto⟩ := step_controller hs
  rcases hrto with hrto | hrto
  · exact ⟨hctrl.wf h.wf, hrto ▸ h.rtoLo, hrto ▸ h.rtoHi⟩
  · exact ⟨hctrl.wf h.wf, hrto.1, hrto.2⟩

theorem timed_of_reachable {cfg : Config} {es : List Event} {c : ContextMcast} (h : Reachable cfg es c) : Timed c := by
  obtain ⟨c0, h0, hrun⟩ := h
  obtain ⟨core, hcore, rfl⟩ := Option.map_eq_some_iff.1 h0
  obtain ⟨r, -, rfl⟩ := Option.map_eq_some_iff.1 hcore
  refine hrun.invariant (P := Timed) ?_ fun _ _ _ hx _ hs => hx.step hs
  exact ⟨Controller.construct_wf _, show kMinRTO ≤ kDefaultRTO by decide, show kDefaultRTO ≤ kMaxRTO by decide⟩

/-- The name of a node id through a run. -/
theorem revName_run {c c' : ContextMcast} {es : List Event} (h : Timed c) (hrun : Runs.Run step ok c es c') {id : Nat}
    {name : String} (hn : c.controller.peerNameRevMap id = some name) :
    Timed c' ∧ c'.controller.peerNameRevMap id = some name :=
  hrun.invariant (P := fun x => Timed x ∧ x.controller.peerNameRevMap id = some name) ⟨h, hn⟩
    fun _ _ _ hx _ hs => ⟨hx.1.step hs, (step_controller hs).1.revName hx.1.wf hx.2⟩

/-! ## Silent sessions -/

/-- No call of `sendDataPackets`, at any time, touches the queue of the session or posts a packet of it. -/
def Silent (c : ContextMcast) (sid : Nat) : Prop := ∀ ts draw, sendSession ts draw c sid = some (c, [])

/-- A slot that was sent in this pass keeps the time of the pass. -/
theorem sendIndices_stamped {c : ContextMcast} {ts k : Nat} {draw : Nat → Bool} : ∀ {is : List Nat} {l l' : Sending},
    (l.queue.ring.handle k).ts = ts → sendIndices c ts draw is l = some l' → (l'.queue.ring.handle k).ts = ts
  | [], l, l', hk, h => by cases h; exact hk
  | i :: is, l, l', hk, h => by
    obtain ⟨l1, h1, h2⟩ := Option.bind_eq_some_iff.1 h
    refine sendIndices_stamped ?_ h2
    obtain ⟨-, rfl⟩ | ⟨-, -, hq⟩ := Sending.sendIndex_touch h1
    · exact hk
    · rw [hq, Sending.touch_handle]
      split
      · rfl
      · exact hk

/-- A pass over a queue whose first packet is due leaves that packet with the time of the pass. -/
theorem sendQueue_stamped {c : ContextMcast} {ts i : Nat} {is : List Nat} {draw : Nat → Bool} {addr : String}
    {info : SessionInfo} {q : McastSendQueue} {l : Sending} (hr : sendRange q = i :: is)
    (hdue : c.recvRto ≤ sub64 ts (q.ring.getMutableEntry i).ts) (h : sendQueue c ts draw addr info q = some l) :
    (l.queue.ring.handle (i % q.ring.queueCapacity)).ts = ts := by
  obtain ⟨l2, h2, h3⟩ := Option.bind_eq_some_iff.1 h
  have hl : l.queue = l2.queue := by
    split at h3
    · cases h3; rfl
    · exact (Sending.flush_resent h3).2
  rw [hr] at h2
  obtain ⟨l1, h1, h2⟩ := Option.bind_eq_some_iff.1 h2
  rw [hl]
  refine sendIndices_stamped ?_ h2
  obtain ⟨hage, -⟩ | ⟨-, -, hq⟩ := Sending.sendIndex_touch h1
  · exact absurd hdue (not_le.2 hage)
  · rw [hq, Sending.touch_handle, if_pos rfl]

section Session

variable {c : ContextMcast} {sid ptr : Nat} {x : SessionInfo} {q : McastSendQueue} {name : String}
  (hn : c.controller.peerNameRevMap (sid / 256) = some name) (hx : c.activeSessionMap.lookup sid = some x)
include hn hx

theorem sendSession_of_not_mem (hm : name ∉ c.controller.multicastContextMap) (ts : Nat) (draw : Nat → Bool) :
    sendSession ts draw c sid = some (c, []) := by
  unfold sendSession
  simp [hx, hn, Option.filter_some, hm]

theorem sendSession_of_mem (hptr : x.mcastSendQueue = some ptr) (hq : c.packetManager.mcastSendQueue ptr = some q)
    (hm : name ∈ c.controller.multicastContextMap) (ts : Nat) (draw : Nat → Bool) :
    sendSession ts draw c sid = (sendQueue c ts draw name x q).map fun l =>
      ({ c with packetManager := c.packetManager.setMcastSendQueue ptr l.queue
                mcastSendWrDepth := Function.update c.mcastSendWrDepth name l.depth }, l.resent) := by
  unfold sendSession
  simp [hx, hn, Option.filter_some, hm, hptr, hq]

/-- A session is silent when it has no group, or its queue has nothing to send. -/
theorem silent_iff (h : Timed c) (hptr : x.mcastSendQueue = some ptr)
    (hq : c.packetManager.mcastSendQueue ptr = some q) :
    Silent c sid ↔ c.controller.getMulticastContextOfSession sid = none ∨ sendRange q = [] := by
  rw [getMulticastContextOfSession_eq_none hn]
  constructor
  · intro hs
    rw [or_iff_not_imp_left, not_not]
    intro hm
    cases hr : sendRange q with
    | nil => rfl
    | cons i is =>
      -- a pass at a time when the first packet is due
      have hlo := h.rtoLo
      have hhi := h.rtoHi
      have hlimit : kMinRTO = 64 ∧ kMaxRTO = 16392 := by decide
      have hpass := hs ((q.ring.getMutableEntry i).ts + c.recvRto) fun _ => true
      rw [sendSession_of_mem hn hx hptr hq hm] at hpass
      obtain ⟨l, hl, he⟩ := Option.map_eq_some_iff.1 hpass
      have hqueue : some l.queue = some q := by
        have hmap := congrArg (fun r : ContextMcast × List Nat => r.1.packetManager.mcastSendQueue ptr) he
        simpa [PacketManager.setMcastSendQueue, hq] using hmap
      have hstamp := sendQueue_stamped hr (by unfold sub64; omega) hl
      rw [Option.some.inj hqueue] at hstamp
      unfold SendRing.getMutableEntry at hstamp
      omega
  · rintro (hm | hr) ts draw
    · exact sendSession_of_not_mem hn hx hm ts draw
    · by_cases hm : name ∈ c.controller.multicastContextMap
      · have hpass : sendQueue c ts draw name x q = some ⟨x, q, c.mcastSendWrDepth name, [], 0, []⟩ := by
          unfold sendQueue
          rw [hr]
          rfl
        have hmgr : c.packetManager.setMcastSendQueue ptr q = c.packetManager := by
          unfold PacketManager.setMcastSendQueue
          rw [← hq, Function.update_eq_self]
        rw [sendSession_of_mem hn hx hptr hq hm, hpass, Option.map_some, hmgr, Function.update_eq_self]
      · exact sendSession_of_not_mem hn hx hm ts draw

end Session

/-- In every state after a group was left, a session of one of its old node ids is silent exactly as long as the
address is not joined, or the old queue has nothing that is not acknowledged. -/
theorem left_group_silent_iff (cfg : Config) (es es' : List Event) (c c1 c' : ContextMcast) (addr : String)
    (hr : Reachable cfg es c) (hleave : c.leaveMulticast addr = some (0, c1)) (hrun : Runs.Run step ok c1 es' c')
    (sid ptr : Nat) (x : SessionInfo) (q : McastSendQueue) (hn : c.controller.peerNameRevMap (sid / 256) = some addr)
    (hx : c'.activeSessionMap.lookup sid = some x) (hptr : x.mcastSendQueue = some ptr)
    (hq : c'.packetManager.mcastSendQueue ptr = some q) :
    Silent c' sid ↔ addr ∉ c'.controller.multicastContextMap ∨ sendRange q = [] := by
  have hs : step c (.leaveMulticast addr) = some c1 := by simp [step, hleave]
  have htimed := timed_of_reachable hr
  obtain ⟨htimed', hn'⟩ := revName_run (htimed.step hs) hrun ((step_controller hs).1.revName htimed.wf hn)
  rw [silent_iff hn' hx htimed' hptr hq, getMulticastContextOfSession_eq_none hn']

/-- A packet is pushed to a group that is then left and joined again, under a new id and with no replicas: the next
pass posts the old packet to the new group. -/
theorem stale_packet_posted : ∃ c0 c c1 c2 c3, start (smallConfig 512) = some c0 ∧
    Runs.Run step ok c0 [.joinMulticast "224.0.0.1" true true, .setMulticastReplicas "224.0.0.1" ["a"],
      .send "224.0.0.1" [⟨100, 2⟩]] c ∧
    c.controller.getMulticastContext "224.0.0.1" = some ⟨0, ["a"]⟩ ∧ c.leaveMulticast "224.0.0.1" = some (0, c1) ∧
    Runs.Run step ok c1 [.joinMulticast "224.0.0.1" true true] c2 ∧
    c2.controller.getMulticastContextOfSession 0 = some ⟨1, []⟩ ∧ c2.mcastSendWrDepth "224.0.0.1" = 0 ∧
    ok c2 (.sendData 8196 [0] fun _ _ => true) ∧ step c2 (.sendData 8196 [0] fun _ _ => true) = some c3 ∧
    c3.mcastSendWrDepth "224.0.0.1" = 1 := by
  obtain ⟨c0, c, h0, hrun, ht⟩ := Runs.exists_run_of_start step ok (start (smallConfig 512))
    [.joinMulticast "224.0.0.1" true true, .setMulticastReplicas "224.0.0.1" ["a"], .send "224.0.0.1" [⟨100, 2⟩]]
    (fun c => decide (c.controller.getMulticastContext "224.0.0.1" = some ⟨0, ["a"]⟩) &&
      (c.leaveMulticast "224.0.0.1").any fun r : Int × ContextMcast => decide (r.1 = 0) &&
        (Runs.exec step ok r.2 [.joinMulticast "224.0.0.1" true true]).any fun c2 : ContextMcast =>
          decide (c2.controller.getMulticastContextOfSession 0 = some ⟨1, []⟩ ∧ c2.mcastSendWrDepth "224.0.0.1" = 0 ∧
            ok c2 (.sendData 8196 [0] fun _ _ => true)) &&
          (step c2 (.sendData 8196 [0] fun _ _ => true)).any fun c3 : ContextMcast =>
            decide (c3.mcastSendWrDepth "224.0.0.1" = 1)) (by decide +kernel)
  obtain ⟨hg, ht⟩ := Bool.and_eq_true_iff.1 ht
  obtain ⟨⟨ret, c1⟩, hleave, ht⟩ := (Option.any_eq_true _ _).1 ht
  obtain ⟨hret, ht⟩ := Bool.and_eq_true_iff.1 ht
  obtain ⟨c2, hjoin, ht⟩ := (Option.any_eq_true _ _).1 ht
  obtain ⟨hnew, ht⟩ := Bool.and_eq_true_iff.1 ht
  obtain ⟨c3, hpass, hdepth⟩ := (Option.any_eq_true _ _).1 ht
  obtain ⟨hnew, hzero, hok⟩ := of_decide_eq_true hnew
  obtain rfl : ret = 0 := of_decide_eq_true hret
  exact ⟨c0, c, c1, c2, c3, h0, hrun, of_decide_eq_true hg, hleave, Runs.run_of_exec hjoin, hnew, hzero, hok, hpass,
    of_decide_eq_true hdepth⟩

/-- A group with a packet in its queue is left, and its session is silent. -/
theorem left_group_silent : ∃ c0 c c1, start (smallConfig 512) = some c0 ∧
    Runs.Run step ok c0 [.joinMulticast "224.0.0.1" true true, .setMulticastReplicas "224.0.0.1" ["a"],
      .send "224.0.0.1" [⟨100, 2⟩]] c ∧
    c.leaveMulticast "224.0.0.1" = some (0, c1) ∧ Silent c1 0 := by
  obtain ⟨c0, c, h0, hrun, ht⟩ := Runs.exists_run_of_start step ok (start (smallConfig 512))
    [.joinMulticast "224.0.0.1" true true, .setMulticastReplicas "224.0.0.1" ["a"], .send "224.0.0.1" [⟨100, 2⟩]]
    (fun c => decide (c.controller.peerNameRevMap 0 = some "224.0.0.1") &&
      (c.leaveMulticast "224.0.0.1").any fun r : Int × ContextMcast =>
        decide (r.1 = 0 ∧ "224.0.0.1" ∉ r.2.controller.multicastContextMap ∧
          (r.2.packetManager.mcastSendQueue 0).isSome = true) &&
        (r.2.activeSessionMap.lookup 0).any fun x : SessionInfo => decide (x.mcastSendQueue = some 0))
          (by decide +kernel)
  obtain ⟨hname, ht⟩ := Bool.and_eq_true_iff.1 ht
  obtain ⟨⟨ret, c1⟩, hleave, ht⟩ := (Option.any_eq_true _ _).1 ht
  obtain ⟨hret, ht⟩ := Bool.and_eq_true_iff.1 ht
  obtain ⟨x, hx, hptr⟩ := (Option.any_eq_true _ _).1 ht
  obtain ⟨hret, hnot, hq⟩ := of_decide_eq_true hret
  obtain rfl : ret = 0 := hret
  obtain ⟨q, hq⟩ := Option.isSome_iff_exists.1 hq
  exact ⟨c0, c, c1, h0, hrun, hleave, (left_group_silent_iff _ _ [] c c1 c1 _ ⟨c0, h0, hrun⟩ hleave .nil 0 0 x q
    (of_decide_eq_true hname) hx (of_decide_eq_true hptr) hq).2 (.inl hnot)⟩

end RapidTransfer.ContextMcast
