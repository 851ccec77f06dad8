/-
Which counter an ACK moves. An ACK names no group: `redirectMulticast` takes the first group, in the order of the
addresses, that lists the peer it came from. For a group and one of its replicas that is the right counter exactly
when no group with a smaller address lists the replica too (`ack_credited_iff`).
-/
import RapidTransfer.Context.Attribution
import RapidTransfer.Context.Completion

namespace RapidTransfer

theorem McastSendQueue.tailList_markCompleted (q : McastSendQueue) (k sn : Nat) (pool : PacketBufferPool) :
    (q.markCompleted k sn pool).2.1.tailList = q.tailList.set k (ackTail (q.tailList.getD k 0) q.ring.head sn) := by
  unfold McastSendQueue.markCompleted
  split
  · rw [List.set_eq_of_length_le (by omega)]
  · rfl

namespace ContextMcast

open RapidTransfer.Core

theorem ControllerStep.distinctIds {c c' : Controller} {e : Event} (hs : ControllerStep c e c') (h : c.DistinctIds) :
    c'.DistinctIds := by
  cases hs with
  | same => exact h
  | register => exact h.of_groups (Nat.le_succ _) fun _ g hg => ⟨g, hg, rfl⟩
  | join => exact h.joinMulticast _ _
  | leave =>
    unfold Controller.leaveMulticast
    split
    · exact h.of_groups (le_refl _) fun _ g hg => ⟨g, (Controller.lookup_erase_some hg).2, rfl⟩
    · exact h
  | replicas hg => exact h.of_groups (le_refl _) fun _ _ hx => Controller.lookup_setReplicas hg hx

theorem distinctIds_of_reachable {cfg : Config} {es : List Event} {c : ContextMcast} (h : Reachable cfg es c) :
    c.controller.DistinctIds := by
  obtain ⟨c0, h0, hrun⟩ := h
  obtain ⟨core, hcore, rfl⟩ := Option.map_eq_some_iff.1 h0
  obtain ⟨r, -, rfl⟩ := Option.map_eq_some_iff.1 hcore
  exact hrun.invariant (P := fun x => x.controller.DistinctIds) (Controller.DistinctIds.construct _)
    fun _ _ _ hx _ hs => (step_controller hs).1.distinctIds hx

/-- The redirection finds the position of a replica in its own group. -/
theorem redirect_iff {c : Controller} (h : c.DistinctIds) {addr peer : String} {g : RdmaMulticastContext} {k sid : Nat}
    (hg : c.multicastContextMap.lookup addr = some g) (hnodup : g.replicas.Nodup) (hk : g.replicas[k]? = some peer)
    (hsid : c.peerNameRevMap (sid / 256) = some peer) :
    c.redirectMulticast sid = (g.groupId * 256 + sid % 256, k) ↔ FirstListing c addr peer := by
  have hmem := List.mem_of_getElem? hk
  obtain ⟨b, g', hb, hlist, hfirst, hre⟩ := Controller.redirectMulticast_first hg hmem hsid
  constructor
  · intro heq
    -- the ids of groups tell them apart
    have hid : g'.groupId = g.groupId := by
      have := congrArg Prod.fst (hre.symm.trans heq)
      simp only at this
      omega
    obtain rfl := h.unique b addr g' g hb hg hid
    exact hfirst
  · intro hleast
    obtain rfl : b = addr := String.le_antisymm (hfirst addr g hg hmem) (hleast b g' hb hlist)
    rw [hg] at hb
    cases hb
    obtain ⟨hlt, rfl⟩ := List.getElem?_eq_some_iff.1 hk
    rw [hre, hnodup.idxOf_getElem]

/-- What an ACK does to the counters: one tail of the queue it is redirected to moves. -/
theorem ack_moves {c c' : ContextMcast} (h : Sendable c) {ts sid : Nat} {a : Arrival} {m : Option String} {p : Packet}
    (hp : a.packet = some p) (hcmd : p.cmd ≠ pktCmdData) (hsid : sessionOf c.toCore a m p.session = some (some sid))
    (hs : step c (.arrive ts a m) = some c') :
    ∃ q q', c.packetManager.mcastSendQueue (c.controller.redirectMulticast sid).1 = some q ∧
      c'.packetManager.mcastSendQueue =
        Function.update c.packetManager.mcastSendQueue (c.controller.redirectMulticast sid).1 (some q') ∧
      q'.tailList = q.tailList.set (c.controller.redirectMulticast sid).2
        (ackTail (q.tailList.getD (c.controller.redirectMulticast sid).2 0) q.ring.head p.sn) ∧
      c'.packetManager.sendQueue = c.packetManager.sendQueue ∧
      c'.packetManager.receiveQueue = c.packetManager.receiveQueue := by
  obtain ⟨core, hx, rfl⟩ := Option.map_eq_some_iff.1 hs
  unfold processReceivedPacket at hx
  simp only [hp, hsid, if_neg hcmd] at hx
  obtain ⟨x, ptr, q, hx, hptr, hq, hr⟩ := processAck_some hx
  obtain rfl := h.ptr _ x ptr hx hptr
  obtain ⟨cwnd, incr, srtt, rttval, rfl⟩ := receiveAck_some hr
  exact ⟨q, _, hq, rfl, q.tailList_markCompleted _ _ _, rfl, rfl⟩

/-- In every reachable state, for every group and every replica of its list, which names no peer twice: an ACK of
the replica is redirected to the group's session and the replica's position exactly when no group with a smaller
address lists it; and then the ACK moves that tail of the group's queue and no other counter. -/
theorem ack_credited_iff (cfg : Config) (es : List Event) (c : ContextMcast) (hr : Reachable cfg es c)
    (addr peer : String) (g : RdmaMulticastContext) (k sid : Nat)
    (hg : c.controller.multicastContextMap.lookup addr = some g) (hnodup : g.replicas.Nodup)
    (hk : g.replicas[k]? = some peer) (hsid : c.controller.peerNameRevMap (sid / 256) = some peer) :
    (c.controller.redirectMulticast sid = (g.groupId * 256 + sid % 256, k) ↔ FirstListing c.controller addr peer) ∧
    (FirstListing c.controller addr peer → ∀ ts a m p c', a.packet = some p → p.cmd ≠ pktCmdData →
      sessionOf c.toCore a m p.session = some (some sid) → step c (.arrive ts a m) = some c' →
      ∃ q q', c.packetManager.mcastSendQueue (g.groupId * 256 + sid % 256) = some q ∧
        c'.packetManager.mcastSendQueue =
          Function.update c.packetManager.mcastSendQueue (g.groupId * 256 + sid % 256) (some q') ∧
        q'.tailList = q.tailList.set k (ackTail (q.tailList.getD k 0) q.ring.head p.sn) ∧
        c'.packetManager.sendQueue = c.packetManager.sendQueue ∧
        c'.packetManager.receiveQueue = c.packetManager.receiveQueue) := by
  have hiff := redirect_iff (distinctIds_of_reachable hr) hg hnodup hk hsid
  refine ⟨hiff, fun hfirst ts a m p c' hp hcmd hses hs => ?_⟩
  have hmoves := ack_moves (sendable_of_reachable hr) hp hcmd hses hs
  rw [hiff.2 hfirst] at hmoves
  exact hmoves

/-- Two groups list one peer, and a packet is sent to each. -/
def twoGroups : List Event :=
  [.setupConnection "a" 7 [1] [1] true, .joinMulticast "224.0.0.1" true true, .joinMulticast "224.0.0.2" true true,
    .setMulticastReplicas "224.0.0.1" ["a"], .setMulticastReplicas "224.0.0.2" ["a"], .send "224.0.0.1" [⟨100, 2⟩],
    .send "224.0.0.2" [⟨100, 2⟩]]

/-- The ACK of the peer for the packet of the second group moves the tail of the first. -/
theorem ack_of_other_group : ∃ c0 c c', start (smallConfig 512) = some c0 ∧ Runs.Run step ok c0 twoGroups c ∧
    c.controller.getMulticastContext "224.0.0.2" = some ⟨2, ["a"]⟩ ∧ c.controller.peerNameRevMap 0 = some "a" ∧
    c.controller.redirectMulticast 0 = (1 * 256, 0) ∧
    step c (.arrive 0 Context.firstAck none) = some c' ∧
    (c'.packetManager.mcastSendQueue (1 * 256)).map (·.tailList) = some [1] ∧
    (c'.packetManager.mcastSendQueue (2 * 256)).map (·.tailList) = some [0] := by
  obtain ⟨c0, c, h0, hrun, ht⟩ := Runs.exists_run_of_start step ok (start (smallConfig 512)) twoGroups
    (fun c => decide (c.controller.getMulticastContext "224.0.0.2" = some ⟨2, ["a"]⟩ ∧
        c.controller.peerNameRevMap 0 = some "a" ∧ c.controller.redirectMulticast 0 = (1 * 256, 0)) &&
      (step c (.arrive 0 Context.firstAck none)).any fun c' : ContextMcast =>
        decide ((c'.packetManager.mcastSendQueue (1 * 256)).map (·.tailList) = some [1] ∧
          (c'.packetManager.mcastSendQueue (2 * 256)).map (·.tailList) = some [0])) (by decide +kernel)
  obtain ⟨hpre, ht⟩ := Bool.and_eq_true_iff.1 ht
  obtain ⟨c', hs, htails⟩ := (Option.any_eq_true _ _).1 ht
  obtain ⟨hg, hname, hre⟩ := of_decide_eq_true hpre
  exact ⟨c0, c, c', h0, hrun, hg, hname, hre, hs, of_decide_eq_true htails⟩

/-- The first of the two groups gets the ACK that is its own. -/
theorem ack_of_first_group : ∃ c0 c, start (smallConfig 512) = some c0 ∧ Runs.Run step ok c0 twoGroups c ∧
    FirstListing c.controller "224.0.0.1" "a" ∧ c.controller.redirectMulticast 0 = (1 * 256 + 0 % 256, 0) := by
  obtain ⟨c0, c, h0, hrun, ht⟩ := Runs.exists_run_of_start step ok (start (smallConfig 512)) twoGroups
    (fun c => decide (c.controller.multicastContextMap.lookup "224.0.0.1" = some ⟨1, ["a"]⟩ ∧
        c.controller.peerNameRevMap (0 / 256) = some "a" ∧
        c.controller.multicastContextMap.entries.map (·.1) = ["224.0.0.2", "224.0.0.1"])) (by decide +kernel)
  obtain ⟨hg, hname, hkeys⟩ := of_decide_eq_true ht
  have hfirst : FirstListing c.controller "224.0.0.1" "a" := by
    intro b g hb _
    have hmem : b ∈ c.controller.multicastContextMap.entries.map (·.1) :=
      List.mem_map.2 ⟨⟨b, g⟩, AList.mem_lookup_iff.1 hb, rfl⟩
    rw [hkeys] at hmem
    simp only [List.mem_cons, List.not_mem_nil, or_false] at hmem
    rcases hmem with rfl | rfl
    · decide
    · exact String.le_refl _
  exact ⟨c0, c, h0, hrun, hfirst, (ack_credited_iff _ _ c ⟨c0, h0, hrun⟩ "224.0.0.1" "a" ⟨1, ["a"]⟩ 0 0 hg (by simp) rfl
    hname).1.2 hfirst⟩

end ContextMcast

end RapidTransfer
