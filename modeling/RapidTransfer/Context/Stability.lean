/-
Whether completion is final. The tail of a queue never moves back, so as long as no queue reaches `2^24`
fragments and the id of the task is not given again, which takes `2^32` tasks, a task that was complete once
stays complete (`completion_stable`). A queue that goes on past
that number makes its old tasks pending again: `pending_again` follows one acknowledged fragment through
the `2^24` that come after it.
-/
import RapidTransfer.Context.Completion
import RapidTransfer.Context.Retransmit
import RapidTransfer.Queue.Flow

namespace RapidTransfer.Context

open RapidTransfer.Core

/-! ## Tails only move up -/

theorem sendRule_tail (k n : Nat) : SendMapRule
    (fun q bufs => fitsBelow q.ring.head q.ring.secondaryQueue bufs = true)
    (fun m => ∃ q, m k = some q ∧ q.Short ∧ n ≤ q.tail) where
  construct h hn hq := Queues.exists_insert h hn _
  push h hq hall hp := by
    refine Queues.exists_update h hq fun hS => ⟨sendRule_short.push hS.1 hall hp, ?_⟩
    exact hS.2.trans (SendQueue.push_tail hp).ge
  ack pool h hq hsn := by
    refine Queues.exists_update h hq fun hS => ⟨sendRule_short.ack pool hS.1 hsn, ?_⟩
    exact hS.2.trans (ackTail_bounds hS.1.tailLe hS.1.head_lt hsn).1
  restamp h hq ht hr := by
    refine Queues.exists_update h hq fun hS => ⟨sendRule_short.restamp hS.1 ht hr, ?_⟩
    rw [ht]
    exact hS.2

theorem receiveRule_tail (k n : Nat) : ReceiveMapRule
    (fun q bufs => fitsBelow q.head q.secondaryQueue bufs = true)
    (fun m => ∃ q, m k = some q ∧ q.Short ∧ n ≤ q.tail) where
  construct h hn hq := Queues.exists_insert h hn _
  push h hq hall hp := by
    refine Queues.exists_update h hq fun hS => ⟨receiveRule_short.push hS.1 hall hp, ?_⟩
    exact hS.2.trans (ReceiveQueue.push_tail hp).ge
  data h hq hm := by
    refine Queues.exists_update h hq fun hS => ⟨receiveRule_short.data hS.1 hm, ?_⟩
    exact hS.2.trans (ReceiveQueue.tail_le_markCompleted hm)

theorem Unwrapped.reached_step {c c' : Core} {e : Event} (h : Unwrapped c) (hfits : pushFits c e = true)
    (hs : Context.step c e = some c') {t : Task} {n : Nat} (hr : Reached c t n) : Reached c' t n := by
  obtain ⟨hsend, hreceive⟩ := Bool.and_eq_true_iff.1 hfits
  unfold Reached at hr ⊢
  split at hr
  · rename_i his
    obtain ⟨q, hq, hn⟩ := hr
    obtain ⟨q', hq', -, hn'⟩ := sendMap_step (sendRule_tail t.queue n) ⟨q, hq, h.send _ q hq, hn⟩
      (fun q bufs hp => by rw [hp] at hsend; exact hsend) hs
    rw [if_pos his]
    exact ⟨q', hq', hn'⟩
  · rename_i his
    obtain ⟨q, hq, hn⟩ := hr
    obtain ⟨q', hq', -, hn'⟩ := receiveMap_step (receiveRule_tail t.queue n) ⟨q, hq, h.receive _ q hq, hn⟩
      (fun q bufs hp => by rw [hp] at hreceive; exact hreceive) hs
    rw [if_neg his]
    exact ⟨q', hq', hn'⟩

/-- A run keeps what is reached. -/
theorem Unwrapped.reached_run {c c' : Core} {es : List Event} (h : Unwrapped c)
    (hrun : Runs.Run Context.step (fun x f => ok x f ∧ pushFits x f = true) c es c') {t : Task} {n : Nat}
    (hr : Reached c t n) : Reached c' t n :=
  (hrun.invariant (P := fun x => Unwrapped x ∧ Reached x t n) ⟨h, hr⟩ fun _ _ _ hx hok hs =>
    ⟨hx.1.step hok.2 hs, hx.1.reached_step hok.2 hs hx.2⟩).2

/-! ## Completion is final -/

theorem Reached.of_le {c : Core} {t : Task} {n k : Nat} (h : Reached c t k) (hle : n ≤ tailOf c t) : Reached c t n := by
  unfold Reached at h ⊢
  unfold tailOf at hle
  split at h
  · rename_i his
    obtain ⟨q, hq, -⟩ := h
    rw [if_pos his, hq] at hle
    rw [if_pos his]
    exact ⟨q, hq, hle⟩
  · rename_i his
    obtain ⟨q, hq, -⟩ := h
    rw [if_neg his, hq] at hle
    rw [if_neg his]
    exact ⟨q, hq, hle⟩

/-- What is assumed of the calls after a task was made: they leave their queues below `2^24` fragments, and none of them
is given the id of the task. -/
def keepsTask (id : Nat) (c : Core) (e : Event) : Prop :=
  (ok c e ∧ pushFits c e = true) ∧ makesTask id c e = false

instance (id : Nat) (c : Core) (e : Event) : Decidable (keepsTask id c e) :=
  inferInstanceAs (Decidable ((ok c e ∧ _) ∧ _))

/-- In every run whose pushes leave their queues below `2^24` fragments, a task that is reported complete, or
whose end the tail of its queue has reached, is reported complete in every later state until it is freed, while its
id is not given again. -/
theorem completion_stable (cfg : Config) (c0 c1 c2 c3 c : Core) (es1 es2 es3 : List Event) (e : Event)
    (h0 : start cfg = some c0) (h1 : Runs.Run step (fun x f => ok x f ∧ pushFits x f = true) c0 es1 c1)
    (hok : ok c1 e ∧ pushFits c1 e = true) (hs : step c1 e = some c2) (hnew : c2.nextTaskId ≠ c1.nextTaskId)
    (h2 : Runs.Run step (keepsTask c1.nextTaskId) c2 es2 c3) (t : Task)
    (ht : c2.taskMap c1.nextTaskId = some t)
    (hdone : getStatus c3 c1.nextTaskId = some .success ∨ endOf c2 t ≤ tailOf c3 t)
    (h3 : Runs.Run step (keepsTask c1.nextTaskId) c3 es3 c) :
    (c.taskMap c1.nextTaskId ≠ none → getStatus c c1.nextTaskId = some .success) ∧
      getStatus c c1.nextTaskId ≠ some .pending := by
  have hfits2 := h2.weaken fun _ _ hk => hk.1
  have hfits3 := h3.weaken fun _ _ hk => hk.1
  have hu2 := ((unwrapped_start h0).run h1).step hok.2 hs
  have hu3 := hu2.run hfits2
  have hu := hu3.run hfits3
  obtain ⟨hlast, hqueue⟩ := (taskStep hs).of_new hnew ht
  rw [shortSN_of_lt (hu2.endOf_lt t)] at hlast
  have hkept3 := task_run h2 (fun _ _ hk => hk.2) (.inl ht)
  have hkept := task_run h3 (fun _ _ hk => hk.2) hkept3
  -- either way the tail has reached the task's number, and it stays there
  have hreached3 : Reached c3 t t.lastSn := by
    rcases hdone with hst | hle
    · rcases hkept3 with hk | hk
      · exact (hu3.getStatus_iff hk).1 hst
      · simp [getStatus, hk] at hst
    · exact (hu2.reached_run hfits2 hqueue).of_le (hlast ▸ hle)
  have hreached := hu3.reached_run hfits3 hreached3
  rcases hkept with hk | hk
  · have hst := (hu.getStatus_iff hk).2 hreached
    exact ⟨fun _ => hst, by rw [hst]; simp⟩
  · exact ⟨fun hne => absurd hk hne, by simp [getStatus, hk]⟩

/-- One fragment is sent and acknowledged, and another one pushed. -/
theorem completion_stable_sample : ∃ c0 c1 c2 c3 c, start (smallConfig 256) = some c0 ∧
    Runs.Run step (fun x f => ok x f ∧ pushFits x f = true) c0 [.setupConnection "a" 7 [1] [1] true] c1 ∧
    step c1 (.send "a" [⟨100, 2⟩]) = some c2 ∧
    Runs.Run step (keepsTask 0) c2 [.arrive 0 firstAck] c3 ∧ getStatus c3 0 = some .success ∧
    Runs.Run step (keepsTask 0) c3 [.send "a" [⟨102, 2⟩]] c ∧
    getStatus c 0 ≠ some .pending := by
  obtain ⟨c0, c1, h0, hrun, ht⟩ := Runs.exists_run_of_start step (fun x f => ok x f ∧ pushFits x f = true)
    (start (smallConfig 256)) [.setupConnection "a" 7 [1] [1] true]
    (fun c1 => decide (c1.nextTaskId = 0 ∧ ok c1 (.send "a" [⟨100, 2⟩]) ∧ pushFits c1 (.send "a" [⟨100, 2⟩]) = true) &&
      (step c1 (.send "a" [⟨100, 2⟩])).any fun c2 : Core =>
        decide (c2.nextTaskId = 1 ∧ c2.taskMap 0 = some ⟨0, 1, true, 0⟩) &&
        (Runs.exec step (keepsTask 0) c2 [.arrive 0 firstAck]).any fun c3 =>
          decide (getStatus c3 0 = some .success) &&
            (Runs.exec step (keepsTask 0) c3 [.send "a" [⟨102, 2⟩]]).isSome) (by decide +kernel)
  obtain ⟨hok, ht⟩ := Bool.and_eq_true_iff.1 ht
  obtain ⟨hid, hok⟩ := of_decide_eq_true hok
  obtain ⟨c2, hc2, ht⟩ := (Option.any_eq_true _ _).1 ht
  obtain ⟨htask, ht⟩ := Bool.and_eq_true_iff.1 ht
  obtain ⟨hnext, htask⟩ := of_decide_eq_true htask
  obtain ⟨c3, hc3, ht⟩ := (Option.any_eq_true _ _).1 ht
  obtain ⟨hst, hc⟩ := Bool.and_eq_true_iff.1 ht
  obtain ⟨c, hc⟩ := Option.isSome_iff_exists.1 hc
  have hst : getStatus c3 0 = some .success := of_decide_eq_true hst
  have hrun3 : Runs.Run step (keepsTask 0) c2 _ c3 := Runs.run_of_exec hc3
  have hrun' : Runs.Run step (keepsTask 0) c3 _ c := Runs.run_of_exec hc
  rw [← hid] at htask hst hrun3 hrun'
  have hlast := (completion_stable _ c0 c1 c2 c3 c _ _ _ _ h0 hrun hok hc2 (by omega) hrun3 _ htask (.inl hst) hrun').2
  rw [hid] at hst hrun3 hrun' hlast
  exact ⟨c0, c1, c2, c3, c, h0, hrun, hc2, hrun3, hst, hrun', hlast⟩

/-! ## A queue that wraps -/

/-- A session whose peer keeps acknowledging: `total` fragments were pushed and `k` are acknowledged. -/
structure Going (total k : Nat) (c : Core) : Prop where
  sender : c.controller.findSessionOfAddress 7 1 0 = some (some 0)
  mtu : c.mtuSize ≠ 0
  session : ∃ x, c.activeSessionMap.lookup 0 = some x ∧ x.sendQueue = some 0
  queue : ∃ q, c.packetManager.sendQueue 0 = some q ∧ q.Flowing total ∧ q.tail = k

/-- The peer's ACK for everything below `k`. -/
def ackAt (k : Nat) : Arrival := ⟨7, 1, some (2 ^ 6 + 2 ^ 8 * shortSN k), List.replicate (pktHdrSize + grhSize) 1⟩

theorem ackAt_packet (k : Nat) :
    ∃ p, (ackAt k).packet = some p ∧ p.session = 0 ∧ p.cmd ≠ pktCmdData ∧ p.sn = shortSN k := by
  have hlt := shortSN_lt k
  have himm : (ackAt k).immData.getD 0 = 2 ^ 6 + 2 ^ 8 * shortSN k := rfl
  unfold Arrival.packet deserialize
  rw [himm, if_neg (by simp [ackAt])]
  refine ⟨_, rfl, ?_, ?_, ?_⟩
  · simp only; omega
  · simp only [pktCmdData]; omega
  · simp only; omega

theorem flowing_restamp {total : Nat} {q q' : SendQueue} (h : q.Flowing total) (ht : q'.tail = q.tail)
    (hr : q.ring.Restamped q'.ring) : q'.Flowing total := by
  have hl := h.loaded
  refine ⟨⟨sendRule_ready.restamp hl.ready ht hr, ?_, ?_, ?_, ?_⟩, ?_⟩
  · rw [hr.queueCapacity, hr.head]; exact hl.around
  · rw [hr.secondaryQueue]; exact hl.wf
  · rw [hr.secondaryQueue]; exact hl.addrs
  · rw [hr.head, hr.secondaryQueue]; exact hl.total
  · rw [ht, hr.head]; exact h.ahead

/-- The next ACK arrives. -/
theorem Going.ack {total k : Nat} {c : Core} (h : Going total k c) (hlt : k < total) :
    ∃ c', step c (.arrive 0 (ackAt (k + 1))) = some c' ∧ Going total (k + 1) c' ∧ c'.taskMap = c.taskMap := by
  obtain ⟨p, hp, hsession, hcmd, hsn⟩ := ackAt_packet (k + 1)
  obtain ⟨x, hx, hptr⟩ := h.session
  obtain ⟨q, hq, hflow, rfl⟩ := h.queue
  obtain ⟨hflow', htail'⟩ := hflow.ack_next hlt c.packetManager.pool
  obtain ⟨x', hx'⟩ := onSuccess_isSome h.mtu p.wnd x
  have hs : (receiveAck c 0 0 0 x q p).isSome = true := by
    unfold receiveAck
    simp [updateRTO, hx']
  obtain ⟨c', hc'⟩ := Option.isSome_iff_exists.1 hs
  refine ⟨c', ?_, ?_⟩
  · show processReceivedPacket c 0 (ackAt (q.tail + 1)) = some c'
    unfold processReceivedPacket
    simp only [hp, hsession, show (ackAt (q.tail + 1)).gid = 7 from rfl, show (ackAt (q.tail + 1)).srcQp = 1 from rfl,
      h.sender, hx, if_neg hcmd, hptr, hq, Option.bind_some, hc']
  · obtain ⟨cwnd, incr, srtt, rttval, rfl⟩ := receiveAck_some hc'
    rw [hsn]
    generalize (q.markCompleted (shortSN (q.tail + 1)) c.packetManager.pool) = r at hflow' htail'
    refine ⟨⟨h.sender, h.mtu, ⟨{ x with cwnd := cwnd, incr := incr, rwnd := p.wnd }, by simp, hptr⟩,
      ⟨{ r.2.1 with ring := followWnd r.2.1.ring cwnd }, ?_, ?_, htail'⟩⟩, rfl⟩
    · simp [setSession, PacketManager.setSendQueue]
    · exact flowing_restamp hflow' rfl ((SendRing.Restamped.refl _).followWnd cwnd)

/-- As many ACKs as there are fragments. -/
theorem Going.acks {total k : Nat} {c : Core} (h : Going total k c) : ∀ n, k + n ≤ total →
    ∃ c', Runs.Run step ok c ((List.range n).map fun i => .arrive 0 (ackAt (k + i + 1))) c' ∧ Going total (k + n) c' ∧
      c'.taskMap = c.taskMap
  | 0, _ => ⟨c, .nil, h, rfl⟩
  | n + 1, hn => by
    obtain ⟨c1, hrun, h1, ht1⟩ := h.acks n (by omega)
    obtain ⟨c2, hs, h2, ht2⟩ := h1.ack (by omega)
    refine ⟨c2, ?_, h2, ht2.trans ht1⟩
    rw [List.range_succ, List.map_append]
    exact .snoc hrun trivial hs

/-- One fragment is sent and acknowledged, and its task is complete; then `2^24` more are, one after the
other, and the task is pending. -/
theorem pending_again : ∃ c0 c c', start (smallConfig 256) = some c0 ∧
    Runs.Run step ok c0 [.setupConnection "a" 7 [1] [1] true, .send "a" [⟨100, 2⟩], .send "a" [⟨102, 2 ^ 25⟩],
      .arrive 0 (ackAt 1)] c ∧
    getStatus c 0 = some .success ∧
    Runs.Run step ok c ((List.range (2 ^ 24 - 1)).map fun i => .arrive 0 (ackAt (1 + i + 1))) c' ∧
    getStatus c' 0 = some .pending := by
  obtain ⟨c0, c, h0, hrun, ht⟩ := Runs.exists_run_of_start step ok (start (smallConfig 256))
    [.setupConnection "a" 7 [1] [1] true, .send "a" [⟨100, 2⟩], .send "a" [⟨102, 2 ^ 25⟩], .arrive 0 (ackAt 1)]
    (fun c => decide (getStatus c 0 = some .success) &&
      (decide (c.taskMap 0 = some ⟨0, 1, true, 0⟩ ∧ c.controller.findSessionOfAddress 7 1 0 = some (some 0) ∧
        c.mtuSize = 50) && (((c.activeSessionMap.lookup 0).any fun x : SessionInfo => decide (x.sendQueue = some 0)) &&
      ((c.packetManager.sendQueue 0).any fun q : SendQueue => decide (q.tail = 1 ∧ q.ring.head = 66 ∧
        q.ring.queueCapacity = 64 ∧ q.ring.secondaryQueue = ⟨[⟨102, 2 ^ 25⟩], 130, 2 ^ 24 + 1, 2⟩)))))
          (by decide +kernel)
  obtain ⟨hst, ht⟩ := Bool.and_eq_true_iff.1 ht
  obtain ⟨hc, ht⟩ := Bool.and_eq_true_iff.1 ht
  obtain ⟨hx, hq⟩ := Bool.and_eq_true_iff.1 ht
  obtain ⟨htask, hsender, hmtu⟩ := of_decide_eq_true hc
  obtain ⟨x, hx, hptr⟩ := (Option.any_eq_true _ _).1 hx
  obtain ⟨q, hq, hfields⟩ := (Option.any_eq_true _ _).1 hq
  obtain ⟨htail, hhead, hcap, hsec⟩ := of_decide_eq_true hfields
  have hready := (sendable_of_reachable ⟨c0, h0, hrun⟩).ready 0 q hq
  have hlen : q.ring.secondaryQueue.pending.length = 2 ^ 24 - 65 := by
    rw [hsec]
    simp [SecondaryQueue.pending, pieceCount]
  have hgoing : Going (2 ^ 24 + 1) 1 c := by
    refine ⟨hsender, by omega, ⟨x, hx, of_decide_eq_true hptr⟩, q, hq,
      ⟨⟨hready, by omega, ?_, ?_, by omega⟩, by omega⟩, htail⟩
    · rw [hsec]
      exact ⟨by norm_num, .inr ⟨_, _, rfl, by norm_num⟩⟩
    · rw [hsec]
      intro b hb
      simp only [SecondaryQueue.pending, fragments_nil, List.append_nil, pieces, List.mem_map] at hb
      obtain ⟨i, -, rfl⟩ := hb
      simp only
      omega
  obtain ⟨c', hrun', hgoing', htask'⟩ := hgoing.acks (2 ^ 24 - 1) (by norm_num)
  refine ⟨c0, c, c', h0, hrun, of_decide_eq_true hst, hrun', ?_⟩
  obtain ⟨q', hq', -, htail'⟩ := hgoing'.queue
  unfold getStatus
  rw [htask', htask]
  simp only [hq', Option.map_some, SendQueue.getAckSN, htail', if_true]
  rw [show shortSN (1 + (2 ^ 24 - 1)) = 0 by decide]
  simp [statusOf]

end RapidTransfer.Context
