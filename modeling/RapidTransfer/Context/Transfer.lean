/-
A transfer between two contexts. Both serve any number of sessions, and one of them is followed: what is pushed for it
at the sender, what is posted for it at the receiver, what queue pairs have taken of it, and what is written for it. The
network may lose, duplicate, delay and reorder whatever was taken.

`Inv` ties the two contexts to the queue-level system of `Delivery/Unicast`: their queues for the session, with the
messages between them, are a state in which that system's invariant holds. So what holds of two queues holds of two
contexts, whatever else they do (`transfer_in_order`), and a send that `getStatus` reports as done is in the memory of
the receiver, buffer by buffer (`reported_send_delivered`).
-/
import RapidTransfer.Context.Followed
import RapidTransfer.Context.Completion
import RapidTransfer.Delivery.Tiling
import RapidTransfer.Delivery.Unicast
import RapidTransfer.Queue.Numbering
import RapidTransfer.Queue.Reject

namespace RapidTransfer

open RapidTransfer.Core RapidTransfer.Context

/-! ## The system -/

/-- Two contexts with a session between them, under the number each of them has for it. -/
structure Link where
  sender : Core.Config
  receiver : Core.Config
  atSender : Nat
  atReceiver : Nat
  -- the lengths of the buffers that both sides go through
  lens : Nat → Nat
  mtuSize : receiver.mtuSize = sender.mtuSize
  fragment_pos : 0 < fragmentSizeOf sender.mtuSize
  sendCapacity : kWndSize + 1 < sender.queueCapacity
  recvCapacity : kWndSize < receiver.queueCapacity
  recvCapacity_pow : ∃ k ≤ 24, receiver.queueCapacity = 2 ^ k

structure Transfer where
  sender : Core
  receiver : Core
  -- the buffers that were pushed for the session
  sent : List Buffer
  posted : List Buffer
  -- what queue pairs have taken: DATA packets with their indices, ACKs with the tail they stand for
  data : List DataMsg
  acks : List (Nat × Packet)
  -- what the receive queue has written, with the indices
  writes : List (Nat × MemMove)

namespace Transfer

inductive Event
  | atSender (e : Context.Event)
  | atReceiver (e : Context.Event)

def step (l : Link) (x : Transfer) : Event → Option Transfer
  | .atSender e => (Context.step x.sender e).map fun c =>
      { x with
        sender := c
        sent := x.sent ++ sentBy x.sender c l.atSender e
        data := x.data ++ dataBy x.sender l.atSender e }
  | .atReceiver e => (Context.step x.receiver e).map fun c =>
      { x with
        receiver := c
        posted := x.posted ++ postedBy x.receiver c l.atReceiver e
        acks := x.acks ++ (ackBy x.receiver c l.atReceiver e).toList
        writes := x.writes ++ (writtenBy x.receiver l.atReceiver e).toList }

/-! ### What is assumed -/

/-- The buffers of a call that names the peer of a session, whatever becomes of the call. -/
def sendBuffers (c : Core) (sid : Nat) : Context.Event → List Buffer
  | .send p bufs => if c.controller.findSession p 0 = some sid then bufs else []
  | _ => []

def receiveBuffers (c : Core) (sid : Nat) : Context.Event → List Buffer
  | .receive p bufs => if c.controller.findSession p 0 = some sid then bufs else []
  | _ => []

def arrival : Context.Event → Option Arrival
  | .arrive _ a => some a
  | _ => none

/-- The memory of some buffers is left alone by an event. -/
def Untouched (c : Core) (e : Context.Event) (bufs : List Buffer) : Prop :=
  ∀ c' ∈ Context.step c e, ∀ b ∈ bufs, bytesAt c'.mem b.addr b.length = bytesAt c.mem b.addr b.length

/-- An ACK of the session was posted by the receiver, and it is not older than 24-bit numbers can tell. -/
def GenuineAcks (l : Link) (x : Transfer) (e : Context.Event) : Prop :=
  ∀ a ∈ arrival e, ∀ s ∈ x.sender.sessionOf a, s.2 = l.atSender → s.1.cmd ≠ pktCmdData →
    ∃ k ∈ x.acks, k.2 = s.1 ∧ ∀ q ∈ x.sender.packetManager.sendQueueAt l.atSender, q.ring.head < k.1 + 2 ^ 24

/-- The same for a DATA packet of the session. -/
def GenuineData (l : Link) (x : Transfer) (e : Context.Event) : Prop :=
  ∀ a ∈ arrival e, ∀ s ∈ x.receiver.sessionOf a, s.2 = l.atReceiver → s.1.cmd = pktCmdData →
    ∃ m ∈ x.data, m.packet = s.1 ∧
      ∀ r ∈ x.receiver.packetManager.receiveQueueAt l.atReceiver, r.tail + r.wndSize ≤ m.index + 2 ^ 24

/-- Both sides go through the same lengths, the sender's buffers have addresses and stay as they are, nobody else writes
to the receiver's, and packets of the session are packets of the peer. -/
def ok (l : Link) (x : Transfer) : Event → Prop
  | .atSender e => Context.ok x.sender e ∧ (∀ b ∈ sendBuffers x.sender l.atSender e, b.addr ≠ 0) ∧
      HasLengths l.lens (x.sent ++ sendBuffers x.sender l.atSender e) ∧ GenuineAcks l x e ∧
      Untouched x.sender e x.sent
  | .atReceiver e => Context.ok x.receiver e ∧
      HasLengths l.lens (x.posted ++ receiveBuffers x.receiver l.atReceiver e) ∧ GenuineData l x e ∧
      (writtenBy x.receiver l.atReceiver e = none → Untouched x.receiver e x.posted)

instance (c : Core) (e : Context.Event) (bufs : List Buffer) : Decidable (Untouched c e bufs) :=
  inferInstanceAs (Decidable (∀ c' ∈ Context.step c e, ∀ b ∈ bufs, _))

instance (l : Link) (x : Transfer) (e : Context.Event) : Decidable (GenuineAcks l x e) :=
  inferInstanceAs (Decidable (∀ a ∈ arrival e, ∀ s ∈ x.sender.sessionOf a, s.2 = l.atSender → s.1.cmd ≠ pktCmdData →
    ∃ k ∈ x.acks, k.2 = s.1 ∧ ∀ q ∈ x.sender.packetManager.sendQueueAt l.atSender, q.ring.head < k.1 + 2 ^ 24))

instance (l : Link) (x : Transfer) (e : Context.Event) : Decidable (GenuineData l x e) :=
  inferInstanceAs (Decidable (∀ a ∈ arrival e, ∀ s ∈ x.receiver.sessionOf a, s.2 = l.atReceiver → s.1.cmd = pktCmdData →
    ∃ m ∈ x.data, m.packet = s.1 ∧
      ∀ r ∈ x.receiver.packetManager.receiveQueueAt l.atReceiver, r.tail + r.wndSize ≤ m.index + 2 ^ 24))

instance (l : Link) (x : Transfer) : ∀ ev, Decidable (ok l x ev)
  | .atSender e =>
    inferInstanceAs (Decidable (Context.ok x.sender e ∧ (∀ b ∈ sendBuffers x.sender l.atSender e, b.addr ≠ 0) ∧
      HasLengths l.lens (x.sent ++ sendBuffers x.sender l.atSender e) ∧ GenuineAcks l x e ∧
      Untouched x.sender e x.sent))
  | .atReceiver e => inferInstanceAs (Decidable (Context.ok x.receiver e ∧
      HasLengths l.lens (x.posted ++ receiveBuffers x.receiver l.atReceiver e) ∧ GenuineData l x e ∧
      (writtenBy x.receiver l.atReceiver e = none → Untouched x.receiver e x.posted)))

def start (l : Link) : Option Transfer :=
  (Context.start l.sender).bind fun c => (Context.start l.receiver).map fun c' => ⟨c, c', [], [], [], [], []⟩

end Transfer

/-! ## The queues as a queue-level system -/

/-- The configuration of the two queues; `smem` is the memory of the sender. -/
def Link.config (l : Link) (smem : Nat → UInt8) : Unicast.Config where
  mtuSize := l.sender.mtuSize
  sendCapacity := l.sender.queueCapacity
  recvCapacity := l.receiver.queueCapacity
  sendWnd := kWndSize
  recvWnd := kWndSize
  session := l.atSender % 256
  raw := l.sender.raw
  lens := l.lens
  smem := smem
  mem0 := fun _ => 0
  fragment_pos := l.fragment_pos
  sendWnd_lt := (Nat.lt_succ_self _).trans l.sendCapacity
  recvWnd_lt := l.recvCapacity
  recvCapacity_pow := l.recvCapacity_pow

/-- The size of the fragments. -/
def Link.fragmentSize (l : Link) : Nat := fragmentSizeOf l.sender.mtuSize

theorem Link.fragmentSize_lt (l : Link) : l.fragmentSize < 2 ^ 64 := Nat.mod_lt _ (by norm_num)

/-- The queues of the session and the messages between them. The memory is what the writes of the session make of a
blank one. -/
def Transfer.view (x : Transfer) (q : SendQueue) (r : ReceiveQueue) : Unicast.State :=
  ⟨q, x.sent, ⟨r, x.posted, x.writes.foldl (fun m w => w.2.apply m) fun _ => 0, x.writes⟩, x.data,
    x.acks.map fun a => ⟨a.1, a.2.sn⟩⟩

/-- The sender's ring does not depend on send times. -/
theorem SenderInv.restamped {f tail : Nat} {bufs : List Buffer} {r r' : SendRing} (h : SenderInv f bufs tail r)
    (hr : r.Restamped r') (hcap : r'.wndSize < r.queueCapacity) (h16 : r'.wndSize < 2 ^ 16) :
    SenderInv f bufs tail r' := by
  refine ⟨by rw [hr.secondaryQueue]; exact h.size, by rw [hr.secondaryQueue]; exact h.wf, h.addrs,
    by rw [hr.secondaryQueue, hr.head]; exact h.pend, by rw [hr.head]; exact h.headLe,
    by rw [hr.queueCapacity]; exact hcap, h16, by rw [hr.head]; exact h.tailLe,
    by rw [hr.head, hr.queueCapacity]; exact h.lenCap, by rw [hr.head]; exact h.len16, ?_⟩
  rw [hr.queueCapacity, hr.head]
  intro i h1 h2
  obtain ⟨ts, hts⟩ := hr.handle (i % r.queueCapacity)
  rw [hts]
  exact h.slots i h1 h2

/-- Every fragment has an address, so no push is rejected. -/
theorem SenderInv.push_ret {f : Nat} {bufs more : List Buffer} {q q' : SendQueue} {pool pool' : PacketBufferPool}
    {ret : Int} {sn : Nat} (h : SenderInv f bufs q.tail q.ring) (hm : ∀ b ∈ more, b.addr ≠ 0)
    (hp : q.push more pool = some (ret, sn, q', pool')) : ret = 0 := by
  obtain ⟨ids, sq, hsq, -, hfill⟩ := SendQueue.push_some hp
  have hinv := h.push hm hsq
  have hret := SendRing.fill_ret q.tail (q.ring.wndSize + 1) { q.ring with secondaryQueue := sq } pool hinv.wf
  rw [show ret = _ from congrArg (·.1) hfill.symm]
  refine hret.trans (if_neg fun hany => ?_)
  obtain ⟨b, hb, hnull⟩ := List.any_eq_true.1 hany
  have hfrag := List.mem_of_mem_take hb
  rw [hinv.pend] at hfrag
  exact addr_ne_zero_of_mem_fragments hinv.addrs b (List.mem_of_mem_drop hfrag) (of_decide_eq_true hnull).1

/-! ## Messages and memory of the queue-level system -/

namespace Unicast

variable {c : Config} {s : State}

/-- More messages go over the wire. -/
theorem Inv.messages (h : Inv c s) (ms : List DataMsg) (as : List AckMsg)
    (hm : ∀ m ∈ ms, Sent (fragments (fragmentSizeOf c.mtuSize) s.sent) c.smem s.sender.ring.head m)
    (ha : ∀ a ∈ as, a.value ≤ s.receiver.queue.tail ∧ a.sn = shortSN a.value) :
    Inv c { s with data := s.data ++ ms, acks := s.acks ++ as } := by
  refine ⟨h.sender, h.receiver, h.sentLens, h.postedLens, fun m hmem => ?_, fun a hmem => ?_, h.tail⟩
  · rcases List.mem_append.1 hmem with hmem | hmem
    · exact h.data m hmem
    · exact hm m hmem
  · rcases List.mem_append.1 hmem with hmem | hmem
    · exact h.acks a hmem
    · exact ha a hmem

/-- Of the sender's memory only the pushed buffers count. -/
theorem Inv.remembered (h : Inv c s) {smem : Nat → UInt8}
    (hmem : ∀ b ∈ fragments (fragmentSizeOf c.mtuSize) s.sent,
      bytesAt smem b.addr b.length = bytesAt c.smem b.addr b.length) : Inv { c with smem := smem } s := by
  refine ⟨h.sender, ⟨h.receiver.inv, h.receiver.below, fun w hw => ?_, h.receiver.once, h.receiver.mem⟩, h.sentLens,
    h.postedLens, fun m hm => ?_, h.acks, h.tail⟩
  · obtain ⟨src, dst, hsrc, hdst, hlen, hmv⟩ := h.receiver.content w hw
    refine ⟨src, dst, hsrc, hdst, hlen, ?_⟩
    rw [hmv, hmem src (List.mem_of_getElem? hsrc)]
  · obtain ⟨hlt, hsn, b, hb, hpay⟩ := h.data m hm
    refine ⟨hlt, hsn, b, hb, hpay.trans ?_⟩
    exact (bytesAt_inside (hmem b (List.mem_of_getElem? hb)) le_rfl
      (Nat.add_le_add_left (Nat.mod_le _ _) _)).symm

end Unicast

namespace Transfer

/-! ## The invariant -/

/-- A receive queue has counted the buffers it was given, and posts at most one request more than its window has. -/
structure Requested (f : Nat) (bufs : List Buffer) (r : ReceiveQueue) : Prop where
  wnd : r.wndSize ≤ kWndSize
  tailLe : r.tail ≤ r.head
  headLe : r.head ≤ r.tail + r.wndSize + 1
  size : r.secondaryQueue.fragmentSize = f
  numbered : r.secondaryQueue.fragmentId = (bufs.map (SecondaryQueue.countOf f)).sum % 2 ^ 64

namespace Requested

variable {f : Nat} {bufs : List Buffer} {r r' : ReceiveQueue}

theorem post (h : Requested f bufs r) (hroom : r.hasRoom = true) : Requested f bufs r.post := by
  obtain ⟨hw, ht, hh, hsize, hnum⟩ := h
  have hle := of_decide_eq_true (Bool.and_eq_true_iff.1 hroom).2
  rw [sub64_of_le ht (by unfold kWndSize at hw; omega)] at hle
  obtain ⟨hid, hsize'⟩ := r.secondaryQueue.popFragment_fields
  exact ⟨hw, Nat.le_succ_of_le ht, by simp only [ReceiveQueue.post]; omega, hsize'.trans hsize, hid.trans hnum⟩

theorem push {more : List Buffer} {ret : Int} {sn : Nat} (h : Requested f bufs r)
    (hp : r.push more = some (ret, sn, r')) : Requested f (bufs ++ more) r' := by
  obtain ⟨ids, sq, hsq, -, -, rfl⟩ := ReceiveQueue.push_some hp
  obtain ⟨hsize, hid, hids⟩ := SecondaryQueue.push_some hsq
  refine ReceiveQueue.fill_rule (P := Requested f (bufs ++ more)) (fun _ hq hroom => hq.post hroom) _ _
    ⟨h.wnd, h.tailLe, h.headLe, hsize.trans h.size, ?_⟩
  rw [List.map_append, List.sum_append, ← Nat.mod_add_mod, ← h.numbered, ← h.size]
  exact hid.trans hids

theorem settle (h : Requested f bufs r) : Requested f bufs r.settle := by
  refine ReceiveQueue.fill_rule (P := Requested f bufs) (fun _ hq hroom => hq.post hroom) _ _ ?_
  refine ReceiveQueue.advance_rule (P := Requested f bufs) (fun q hq hne _ => ?_) _ r h
  obtain ⟨hw, ht, hh, hsize, hnum⟩ := hq
  exact ⟨hw, by simp only; omega, by simp only; omega, hsize, hnum⟩

theorem markCompleted {p : Packet} {mv : Option MemMove} (h : Requested f bufs r)
    (hm : r.markCompleted p = some (r', mv)) : Requested f bufs r' := by
  obtain ⟨-, rfl, -⟩ | ⟨-, -, rfl, -⟩ | ⟨-, -, -, rfl, -⟩ := ReceiveQueue.markCompleted_cases hm
  · exact h
  · exact h.settle
  · exact settle (r := r.complete p) ⟨h.wnd, h.tailLe, h.headLe, h.size, h.numbered⟩

theorem ackWnd_le (h : Requested f bufs r) : ackWnd r ≤ kWndSize + 1 := by
  obtain ⟨hw, ht, hh, -⟩ := h
  unfold ackWnd
  unfold kWndSize at *
  rw [sub64_of_le ht (by omega)]
  omega

end Requested

/-- What the contexts themselves keep: sessions own their queues, queues have their sizes, windows their bounds. -/
structure Kept (l : Link) (x : Transfer) : Prop where
  ownSend : x.sender.Entries (Own (·.sendQueue))
  ownReceive : x.receiver.Entries (Own (·.receiveQueue))
  plain : x.receiver.AcksPlain
  newWnd : x.sender.packetManager.wndSize = kWndSize
  wnd : WndAtMost (kWndSize + 1) l.atSender x.sender

/-- The queues of the session, and what holds of them and the messages between them. -/
structure Inv (l : Link) (x : Transfer) (q : SendQueue) (r : ReceiveQueue) : Prop where
  sendQueue : x.sender.packetManager.sendQueueAt l.atSender = some q
  receiveQueue : x.receiver.packetManager.receiveQueueAt l.atReceiver = some r
  unicast : Unicast.Inv (l.config x.sender.mem) (x.view q r)
  capacity : q.ring.queueCapacity = l.sender.queueCapacity
  -- `fragment_id_` counts what was pushed
  numbered : q.ring.secondaryQueue.fragmentId = (x.sent.map (SecondaryQueue.countOf l.fragmentSize)).sum % 2 ^ 64
  requested : Requested l.fragmentSize x.posted r
  ackWnd : ∀ a ∈ x.acks, a.2.wnd ≤ kWndSize + 1
  memory : NoOverlap (fragments l.fragmentSize x.posted) →
    ∀ w ∈ x.writes, bytesAt x.receiver.mem w.2.dst w.2.bytes.length = w.2.bytes

variable {l : Link} {x x' : Transfer} {q : SendQueue} {r : ReceiveQueue}

/-! ## Steps of the sender -/

theorem wndSize_le (hk : Kept l x) (hq : x.sender.packetManager.sendQueueAt l.atSender = some q) :
    q.ring.wndSize ≤ kWndSize + 1 := by
  cases hm : x.sender.packetManager.sendQueue l.atSender with
  | some q0 =>
    rw [PacketManager.sendQueueAt_of_some hm] at hq
    cases hq
    exact hk.wnd.queue _ hm
  | none =>
    rw [PacketManager.sendQueueAt_of_none hm, hk.newWnd] at hq
    obtain ⟨ring, hring, rfl⟩ := Option.map_eq_some_iff.1 hq
    unfold SendRing.construct at hring
    split at hring
    · cases hring
      exact (Nat.mod_le _ _).trans (Nat.le_succ _)
    · cases hring

theorem arrival_arrive (ts : Nat) (a : Arrival) : a ∈ arrival (.arrive ts a) := rfl

/-- The send queue after an event of the sender: it has the fragments of all that was pushed, it has counted them, and
its tail has not passed the receiver's. -/
theorem Inv.sendMove {e : Context.Event} {c : Core} {q' : SendQueue} (h : Inv l x q r) (hok : ok l x (.atSender e))
    (hmove : SendMove x.sender c l.atSender e q q')
    (hwnd : q'.ring.wndSize ≤ kWndSize + 1) :
    SenderInv l.fragmentSize (x.sent ++ sentBy x.sender c l.atSender e) q'.tail q'.ring ∧
      q.ring.head ≤ q'.ring.head ∧ q'.tail ≤ r.tail ∧ q'.ring.queueCapacity = q.ring.queueCapacity ∧
      q'.ring.secondaryQueue.fragmentId =
        ((x.sent ++ sentBy x.sender c l.atSender e).map (SecondaryQueue.countOf l.fragmentSize)).sum % 2 ^ 64 := by
  have hsender : SenderInv l.fragmentSize x.sent q.tail q.ring := h.unicast.sender
  have htail : q.tail ≤ r.tail := h.unicast.tail
  have hcap : q'.ring.wndSize < l.sender.queueCapacity := lt_of_le_of_lt hwnd l.sendCapacity
  have h16 : q'.ring.wndSize < 2 ^ 16 := lt_of_le_of_lt hwnd (by decide)
  obtain ⟨-, haddr, -, hacks, -⟩ := hok
  cases hmove with
  | kept hsent =>
    rw [hsent, List.append_nil]
    exact ⟨hsender, le_rfl, htail, rfl, h.numbered⟩
  | @pushed p bufs _ _ pool pool' ret sn hf hp ht =>
    rw [show sendBuffers x.sender l.atSender (.send p bufs) = bufs from if_pos hf] at haddr
    have hret := hsender.push_ret haddr hp
    rw [show sentBy x.sender c l.atSender (.send p bufs) = bufs from if_pos ⟨hf, ht hret⟩]
    obtain ⟨hinv, ht', hhead⟩ := hsender.sendQueue_push haddr hp
    obtain ⟨ids, sq, hsq, -, hfill⟩ := SendQueue.push_some hp
    obtain ⟨-, hcap', hid', -, -⟩ :=
      SendRing.fill_frame q.tail (q.ring.wndSize + 1) { q.ring with secondaryQueue := sq } pool
    obtain ⟨-, hid, hids⟩ := SecondaryQueue.push_some hsq
    have hring : q'.ring = (SendRing.fill q.tail (q.ring.wndSize + 1) { q.ring with secondaryQueue := sq } pool).2.1 :=
      congrArg (·.2.1.ring) hfill.symm
    refine ⟨hinv, hhead, ht'.le.trans htail, hring ▸ hcap', ?_⟩
    rw [hring, hid', hid, hids, hsender.size, h.numbered, Nat.mod_add_mod, List.map_append, List.sum_append]
  | stamped ht hr =>
    rw [show sentBy x.sender c l.atSender _ = [] from rfl, List.append_nil, ht]
    rw [← h.capacity] at hcap
    exact ⟨hsender.restamped hr hcap h16, hr.head.ge, htail, hr.queueCapacity, by rw [hr.secondaryQueue, h.numbered]⟩
  | @acked ts cwnd a p _ pool ha hcmd =>
    rw [show sentBy x.sender c l.atSender _ = [] from rfl, List.append_nil]
    obtain ⟨k, hk, rfl, hage⟩ := hacks a (arrival_arrive ts a) (p, l.atSender) ha rfl hcmd
    obtain ⟨hv, hsn⟩ := h.unicast.acks ⟨k.1, k.2.sn⟩ (List.mem_map.2 ⟨k, hk, rfl⟩)
    have hv : k.1 ≤ r.tail := hv
    have hsn : k.2.sn = shortSN k.1 := hsn
    have hle : k.1 ≤ q.ring.head := hv.trans h.unicast.receiver.tail_le
    obtain ⟨hinv, ht', hhead⟩ := hsender.sendQueue_markCompleted hle (hage q h.sendQueue) pool
    rw [← hsn] at hinv ht' hhead
    obtain ⟨-, hcap', hid, -, -⟩ :=
      SendRing.fill_frame (q.markCompleted k.2.sn pool).2.1.tail (q.ring.wndSize + 1) q.ring pool
    have hstamp := (SendRing.Restamped.refl (q.markCompleted k.2.sn pool).2.1.ring).followWnd cwnd
    refine ⟨hinv.restamped hstamp ?_ h16, hhead.trans hstamp.head.ge, ht'.le.trans (max_le htail hv),
      hstamp.queueCapacity.trans hcap', ?_⟩
    · exact lt_of_lt_of_eq hcap (h.capacity.symm.trans hcap'.symm)
    · rw [hstamp.secondaryQueue]
      exact hid.trans h.numbered

/-! ## Steps of the contexts -/

/-- What the contexts keep needs the invariant for the windows that ACKs announce. -/
theorem Kept.step {ev : Event} (hk : Kept l x) (h : Inv l x q r) (hok : ok l x ev) (hs : step l x ev = some x') :
    Kept l x' := by
  cases ev with
  | atSender e =>
    obtain ⟨c, hc, rfl⟩ := Option.map_eq_some_iff.1 hs
    refine ⟨entries_step entryRule_ownSend hk.ownSend hc, hk.ownReceive, hk.plain,
      (step_sameSizes hc).wndSize.trans hk.newWnd, ?_⟩
    refine hk.wnd.step (by decide) (by rw [hk.newWnd]; exact Nat.le_succ _) hk.ownSend ?_ hc
    rintro ts a p rfl ha hcmd
    obtain ⟨k, hmem, rfl, -⟩ := hok.2.2.2.1 a (arrival_arrive ts a) (p, l.atSender) ha rfl hcmd
    exact h.ackWnd k hmem
  | atReceiver e =>
    obtain ⟨c, hc, rfl⟩ := Option.map_eq_some_iff.1 hs
    refine ⟨hk.ownSend, entries_step Exchange.entryRule_ownReceive hk.ownReceive hc, ?_, hk.newWnd, hk.wnd⟩
    refine step_ack (ackRule_plain ackWnd false) hk.plain hok.1 (fun _ _ => trivial) ?_ hc
    cases e with
    | sendAcks order => exact acksAll_true ackWnd false order x.receiver
    | _ => rfl

/-- The buffers a call is given for the session are those it pushes, or it pushes none. -/
theorem sentBy_cases (c c' : Core) (sid : Nat) (e : Context.Event) :
    sentBy c c' sid e = [] ∨ sentBy c c' sid e = sendBuffers c sid e := by
  cases e with
  | send p bufs =>
    unfold sentBy sendBuffers
    dsimp only
    by_cases hf : c.controller.findSession p 0 = some sid
    · by_cases ht : c'.nextTaskId = c.nextTaskId
      · exact .inl (if_neg fun hx => hx.2 ht)
      · exact .inr (by rw [if_pos ⟨hf, ht⟩, if_pos hf])
    · exact .inl (if_neg fun hx => hf hx.1)
  | _ => exact .inl rfl

/-- Lengths that were announced and are pushed, or are not pushed, stay within the common sequence. -/
theorem lens_initial {bufs more all : List Buffer} {lens : Nat → Nat} (hall : HasLengths lens (bufs ++ all))
    (hm : more = [] ∨ more = all) : HasLengths lens (bufs ++ more) := by
  rcases hm with rfl | rfl
  · rw [List.append_nil]
    exact hall.left
  · exact hall

/-- A packet that is posted for a live index carries the fragment of that index. -/
theorem sent_of_onWire {f tail : Nat} {bufs : List Buffer} {ring : SendRing} {smem : Nat → UInt8} {m : DataMsg}
    (h : SenderInv f bufs tail ring) (h1 : tail ≤ m.index) (h2 : m.index < ring.head)
    (hp : m.packet = (ring.getMutableEntry m.index).onWire smem) : Sent (fragments f bufs) smem ring.head m := by
  obtain ⟨hsn, b, hb, ha, hlen⟩ := h.slots m.index h1 h2
  refine ⟨h2, ?_, b, hb, ?_⟩
  · rw [hp]
    show (ring.getMutableEntry m.index).sn % 2 ^ 24 = _
    unfold SendRing.getMutableEntry
    rw [hsn]
    exact Nat.mod_mod _ _
  · rw [hp]
    show bytesAt smem (ring.getMutableEntry m.index).dataBuf (ring.getMutableEntry m.index).dataLen = _
    unfold SendRing.getMutableEntry
    rw [ha, hlen]

theorem Inv.stepSender {e : Context.Event} (h : Inv l x q r) (hk : Kept l x) (hk' : Kept l x')
    (hok : ok l x (.atSender e)) (hs : step l x (.atSender e) = some x') : ∃ q', Inv l x' q' r := by
  obtain ⟨c, hc, rfl⟩ := Option.map_eq_some_iff.1 hs
  obtain ⟨q', hq', hmove⟩ := step_sendQueueAt hk.ownSend hc h.sendQueue
  obtain ⟨hinv, hhead, htail, hcap, hid⟩ := h.sendMove hok hmove (wndSize_le hk' hq')
  refine ⟨q', hq', h.receiveQueue, ?_, hcap.trans h.capacity, ?_, h.requested, h.ackWnd, h.memory⟩
  · -- the memory of the sender first, then the queue, then the packets that were posted
    have hmem : Unicast.Inv (l.config c.mem) (x.view q r) :=
      h.unicast.remembered (fragments_untouched l.fragment_pos (hok.2.2.2.2 c hc))
    have hmoved := hmem.sender_step (sentBy x.sender c l.atSender e) hinv
      (lens_initial hok.2.2.1 (sentBy_cases _ _ _ _)) hhead htail
    have hposted := hmoved.messages (dataBy x.sender l.atSender e) [] ?_ (by simp)
    · rwa [List.append_nil] at hposted
    intro m hm
    obtain ⟨q1, hq1, h1, h2, hp⟩ := mem_dataBy hk'.ownSend hc hm
    obtain rfl := Option.some.inj ((PacketManager.sendQueueAt_of_some hq1).symm.trans hq')
    exact sent_of_onWire hinv h1 h2 hp
  · exact hid

/-! ## Steps of the receiver -/

/-- A DATA packet of the session, as the queue takes it. -/
theorem Inv.deliver {m : DataMsg} {r' : ReceiveQueue} {mv : Option MemMove} (h : Inv l x q r) (hm : m ∈ x.data)
    (hage : r.tail + r.wndSize ≤ m.index + 2 ^ 24) (hmc : r.markCompleted m.packet = some (r', mv)) :
    Unicast.Inv (l.config x.sender.mem)
      ({ x with writes := x.writes ++ (mv.map (r.designated m.packet.sn, ·)).toList }.view q r') := by
  have hok : Unicast.ok (l.config x.sender.mem) (x.view q r) (.deliverData m) := ⟨hm, hage⟩
  cases mv with
  | none =>
    refine Unicast.step_inv h.unicast hok ?_
    simp [Unicast.step, Receiver.deliver, view, hmc]
  | some mv =>
    have hsent := h.unicast.data m hm
    -- the index that the packet was cut from is the one its number stands for
    have hidx : r.designated m.packet.sn = m.index := by
      have hsn : m.packet.sn < 2 ^ 24 := by
        rw [hsent.2.1]
        exact shortSN_lt _
      obtain ⟨-, ⟨hmv, -⟩ | ⟨i, -, h1, -, h2, h3, -⟩⟩ := h.unicast.receiver.inv.markCompleted_inv hsn hmc
      · cases hmv
      · rw [← ReceiverOK.index_eq h.unicast.ahead hsent hage h1 h2 h3, ← h3]
        exact ReceiveQueue.designated_shortSN h1
          (lt_of_lt_of_le h2 (Nat.add_le_add_left (h.requested.wnd.trans (by decide)) _))
    refine Unicast.step_inv h.unicast hok ?_
    simp [Unicast.step, Receiver.deliver, view, hmc, hidx]

/-- The range of a write is a fragment of what was posted. -/
theorem Inv.exists_fragment (h : Inv l x q r) {w : Nat × MemMove} (hw : w ∈ x.writes) :
    ∃ d, (fragments l.fragmentSize x.posted)[w.1]? = some d ∧ w.2.dst = d.addr ∧ w.2.bytes.length = d.length := by
  obtain ⟨s, d, -, hd, hlen, hmv⟩ := h.unicast.receiver.content w hw
  exact ⟨d, hd, by rw [hmv], by rw [hmv, hlen]; exact length_bytesAt _ _ _⟩

/-- Nothing is written for the session, and what was written stays. -/
theorem Inv.memory_untouched {c : Core} (h : Inv l x q r)
    (hu : ∀ b ∈ x.posted, bytesAt c.mem b.addr b.length = bytesAt x.receiver.mem b.addr b.length)
    (hdis : NoOverlap (fragments l.fragmentSize x.posted)) :
    ∀ w ∈ x.writes, bytesAt c.mem w.2.dst w.2.bytes.length = w.2.bytes := by
  intro w hw
  obtain ⟨d, hd, haddr, hlen⟩ := h.exists_fragment hw
  have hsame := fragments_untouched l.fragment_pos hu d (List.mem_of_getElem? hd)
  rw [← haddr, ← hlen] at hsame
  exact hsame.trans (h.memory hdis w hw)

/-- Writes of different indices do not overlap. -/
theorem separate_writes {f bound : Nat} {sent : List Buffer} {smem mem0 : Nat → UInt8} {v : Receiver}
    (h : ReceiverOK f sent smem mem0 bound v) (hdis : NoOverlap (fragments f v.posted)) (w w' : Nat × MemMove)
    (hw : w ∈ v.writes) (hw' : w' ∈ v.writes) (hne : w.1 ≠ w'.1) :
    w.2.dst + w.2.bytes.length ≤ w'.2.dst ∨ w'.2.dst + w'.2.bytes.length ≤ w.2.dst := by
  obtain ⟨s, d, -, hd, hlen, hmv⟩ := h.content w hw
  obtain ⟨s', d', -, hd', hlen', hmv'⟩ := h.content w' hw'
  rw [hmv, hmv', length_bytesAt, length_bytesAt, ← hlen, ← hlen']
  exact hdis hne hd hd'

/-- What becomes of the receive queue, of the writes and of the memory in an event of the receiver. -/
theorem Inv.receiveMove {e : Context.Event} {c : Core} {r' : ReceiveQueue} (h : Inv l x q r)
    (hok : ok l x (.atReceiver e)) (hc : Context.step x.receiver e = some c)
    (hr' : c.packetManager.receiveQueueAt l.atReceiver = some r')
    (hmove : ReceiveMove x.receiver c l.atReceiver e r r') :
    Inv l { x with
      receiver := c
      posted := x.posted ++ postedBy x.receiver c l.atReceiver e
      writes := x.writes ++ (writtenBy x.receiver l.atReceiver e).toList } q r' := by
  obtain ⟨-, hlens, hdata, huntouched⟩ := hok
  cases hmove with
  | kept hp hw =>
    rw [hp, hw, List.append_nil, Option.toList_none, List.append_nil]
    exact ⟨h.sendQueue, hr', h.unicast, h.capacity, h.numbered, h.requested, h.ackWnd,
      h.memory_untouched (huntouched hw c hc)⟩
  | @pushed p bufs _ _ ret sn hf hp ht =>
    rw [show receiveBuffers x.receiver l.atReceiver (.receive p bufs) = bufs from if_pos hf] at hlens
    rw [show postedBy x.receiver c l.atReceiver (.receive p bufs) = bufs from if_pos ⟨hf, ht⟩,
      show writtenBy x.receiver l.atReceiver (.receive p bufs) = none from rfl, Option.toList_none, List.append_nil]
    refine ⟨h.sendQueue, hr', ?_, h.capacity, h.numbered, h.requested.push hp, h.ackWnd, fun hdis => ?_⟩
    · refine Unicast.step_inv h.unicast (e := .receive bufs) hlens ?_
      simp [Unicast.step, Receiver.post, view, hp]
    · rw [fragments_append] at hdis
      exact h.memory_untouched (huntouched rfl c hc) (NoOverlap.left @hdis)
  | @arrived ts a p _ _ mv ha hcmd hm hw hmem =>
    obtain ⟨m, hmsg, rfl, hage⟩ := hdata a (arrival_arrive ts a) (p, l.atReceiver) ha rfl hcmd
    have hview := h.deliver hmsg (hage r h.receiveQueue) hm
    rw [hw, show postedBy x.receiver c l.atReceiver (.arrive ts a) = [] from rfl, List.append_nil]
    refine ⟨h.sendQueue, hr', hview, h.capacity, h.numbered, h.requested.markCompleted hm, h.ackWnd, fun hdis => ?_⟩
    cases mv with
    | none =>
      rw [Option.map_none, Option.toList_none, List.append_nil]
      exact h.memory_untouched (huntouched hw c hc) hdis
    | some mv =>
      rw [Option.map_some, Option.toList_some]
      rw [show c.mem = mv.apply x.receiver.mem from hmem]
      intro w hmem
      rcases List.mem_append.1 hmem with hold | hmem
      · have hnew : w.1 ≠ r.designated m.packet.sn := by
          have honce : ((x.writes ++ [(r.designated m.packet.sn, mv)]).map Prod.fst).Nodup := hview.receiver.once
          rw [List.map_append] at honce
          exact (List.nodup_append.1 honce).2.2 _ (List.mem_map_of_mem hold) _ (List.mem_singleton_self _)
        have hsep := separate_writes hview.receiver @hdis w (r.designated m.packet.sn, mv) hmem
          (List.mem_append_right _ (List.mem_singleton_self _)) hnew
        rw [MemMove.bytesAt_apply_of_disjoint _ _ hsep]
        exact h.memory @hdis w hold
      · rw [List.mem_singleton.1 hmem]
        exact MemMove.bytesAt_apply_self _ _

theorem Inv.stepReceiver {e : Context.Event} (h : Inv l x q r) (hk : Kept l x) (hk' : Kept l x')
    (hok : ok l x (.atReceiver e)) (hs : step l x (.atReceiver e) = some x') : ∃ r', Inv l x' q r' := by
  obtain ⟨c, hc, rfl⟩ := Option.map_eq_some_iff.1 hs
  obtain ⟨r', hr', hmove⟩ := step_receiveQueueAt hk.ownReceive hc h.receiveQueue
  have hinv := h.receiveMove hok hc hr' hmove
  refine ⟨r', hinv.sendQueue, hr', ?_, hinv.capacity, hinv.numbered, hinv.requested, fun a ha => ?_, hinv.memory⟩
  · have hacked := hinv.unicast.messages [] ((ackBy x.receiver c l.atReceiver e).toList.map fun a => ⟨a.1, a.2.sn⟩)
      (by simp) ?_
    · rw [List.append_nil] at hacked
      simp only [view, List.map_append]
      exact hacked
    intro a ha
    obtain ⟨⟨v, p⟩, hp, rfl⟩ := List.mem_map.1 ha
    obtain ⟨r0, hr0, hv, hsn, -⟩ := ackBy_some hk'.plain hk'.ownReceive hc (Option.mem_toList.1 hp)
    obtain rfl := Option.some.inj ((PacketManager.receiveQueueAt_of_some hr0).symm.trans hr')
    exact ⟨hv.le, hsn⟩
  · rcases List.mem_append.1 ha with ha | ha
    · exact h.ackWnd a ha
    · obtain ⟨r0, hr0, -, -, hwnd⟩ := ackBy_some hk'.plain hk'.ownReceive hc (Option.mem_toList.1 ha)
      obtain rfl := Option.some.inj ((PacketManager.receiveQueueAt_of_some hr0).symm.trans hr')
      rw [hwnd]
      exact (Nat.mod_le _ _).trans hinv.requested.ackWnd_le

/-! ## Runs -/

/-- Everything that holds in a run. -/
def Good (l : Link) (x : Transfer) : Prop := Kept l x ∧ ∃ q r, Inv l x q r

theorem Good.step {ev : Event} (h : Good l x) (hok : ok l x ev) (hs : step l x ev = some x') : Good l x' := by
  obtain ⟨hk, q, r, hinv⟩ := h
  have hk' := hk.step hinv hok hs
  refine ⟨hk', ?_⟩
  cases ev with
  | atSender e => exact (hinv.stepSender hk hk' hok hs).imp fun _ h => ⟨r, h⟩
  | atReceiver e => exact ⟨q, hinv.stepReceiver hk hk' hok hs⟩

/-- A context that has just been made. -/
structure Fresh (cfg : Core.Config) (c : Core) : Prop where
  entries : c.activeSessionMap = ∅
  sendQueue : c.packetManager.sendQueue = fun _ => none
  receiveQueue : c.packetManager.receiveQueue = fun _ => none
  mtuSize : c.packetManager.mtuSize = cfg.mtuSize
  queueCapacity : c.packetManager.queueCapacity = cfg.queueCapacity
  wndSize : c.packetManager.wndSize = kWndSize

theorem fresh_start {cfg : Core.Config} {c : Core} (h : Context.start cfg = some c) : Fresh cfg c := by
  obtain ⟨p, -, rfl⟩ := Option.map_eq_some_iff.1 h
  exact ⟨rfl, rfl, rfl, rfl, rfl, rfl⟩

theorem Fresh.lookup {cfg : Core.Config} {c : Core} (h : Fresh cfg c) (sid : Nat) :
    c.activeSessionMap.lookup sid = none := by
  rw [h.entries]
  rfl

theorem kept_start {c c' : Core} (h : Fresh l.sender c) (h' : Fresh l.receiver c') :
    Kept l ⟨c, c', [], [], [], [], []⟩ where
  ownSend k e he := by rw [h.lookup] at he; cases he
  ownReceive k e he := by rw [h'.lookup] at he; cases he
  plain k e he := by rw [h'.lookup] at he; cases he
  newWnd := h.wndSize
  wnd := by
    constructor
    · intro e he
      rw [h.lookup] at he
      cases he
    · intro q hq
      rw [h.sendQueue] at hq
      cases hq

theorem inv_start {c c' : Core} (h : Fresh l.sender c) (h' : Fresh l.receiver c') :
    ∃ q r, Inv l ⟨c, c', [], [], [], [], []⟩ q r := by
  have hwnd : kWndSize % 2 ^ 16 = kWndSize := by decide
  have hsend : kWndSize < l.sender.queueCapacity := Nat.lt_of_succ_lt l.sendCapacity
  have hsize : kWndSize ≤ l.sender.queueCapacity ∧ 0 < l.sender.queueCapacity := ⟨hsend.le, Nat.zero_lt_of_lt hsend⟩
  have hsize' : kWndSize ≤ l.receiver.queueCapacity ∧ 0 < l.receiver.queueCapacity :=
    ⟨l.recvCapacity.le, Nat.zero_lt_of_lt l.recvCapacity⟩
  obtain ⟨ring, hring⟩ : ∃ ring, SendRing.construct c.packetManager.raw l.sender.mtuSize l.sender.queueCapacity kWndSize
      (l.atSender % 256) = some ring := ⟨_, if_pos hsize⟩
  obtain ⟨r, hr⟩ : ∃ r, ReceiveQueue.construct l.sender.mtuSize l.receiver.queueCapacity kWndSize
      (l.atReceiver % 256) = some r := ⟨_, if_pos hsize'⟩
  obtain ⟨k, hk, hcap⟩ := l.recvCapacity_pow
  have hsender := SenderInv.construct hring l.fragment_pos hsend
  have hreceiver := ReceiverInv.construct hr l.fragment_pos l.recvCapacity (hcap ▸ Nat.pow_dvd_pow 2 hk)
  refine ⟨⟨ring, 0⟩, r, ?_, ?_, ?_, ?_, ?_, ?_, by simp, by simp⟩
  · rw [PacketManager.sendQueueAt_of_none (by rw [h.sendQueue]), h.mtuSize, h.queueCapacity, h.wndSize]
    exact congrArg (Option.map _) hring
  · rw [PacketManager.receiveQueueAt_of_none (by rw [h'.receiveQueue]), h'.mtuSize, h'.queueCapacity,
      h'.wndSize, l.mtuSize]
    exact hr
  · refine ⟨hsender, ⟨?_, by simp [view], by simp [view], by simp [view], rfl⟩, .nil _, .nil _, by simp [view],
      by simp [view], Nat.zero_le _⟩
    simpa [view, Link.config] using hreceiver
  · cases (if_pos hsize).symm.trans hring
    rfl
  · cases (if_pos hsize).symm.trans hring
    rfl
  · cases (if_pos hsize').symm.trans hr
    exact ⟨hwnd.le, le_rfl, Nat.zero_le _, rfl, rfl⟩

theorem good_start (h : start l = some x) : Good l x := by
  obtain ⟨c, hc, h⟩ := Option.bind_eq_some_iff.1 h
  obtain ⟨c', hc', rfl⟩ := Option.map_eq_some_iff.1 h
  exact ⟨kept_start (fresh_start hc) (fresh_start hc'), inv_start (fresh_start hc) (fresh_start hc')⟩

theorem good_run {es : List Event} (h : Good l x) (hrun : Runs.Run (step l) (ok l) x es x') : Good l x' :=
  hrun.invariant h fun _ _ _ hg hok hs => hg.step hok hs

/-! ## Delivery -/

/-- A fragment below the tail of the receiver: its bytes are where the receiver wants them. -/
theorem Inv.fragment_delivered (h : Inv l x q r) (hdis : NoOverlap (fragments l.fragmentSize x.posted)) {i : Nat}
    (hi : i < r.tail) {s d : Buffer} (hs : (fragments l.fragmentSize x.sent)[i]? = some s)
    (hd : (fragments l.fragmentSize x.posted)[i]? = some d) :
    bytesAt x.receiver.mem d.addr d.length = bytesAt x.sender.mem s.addr s.length := by
  obtain ⟨mv, hw, s', d', hs', hd', hlen, rfl⟩ := h.unicast.receiver.delivered hi
  obtain rfl := Option.some.inj (hs.symm.trans hs')
  obtain rfl := Option.some.inj (hd.symm.trans hd')
  have hmem : (i, (⟨d.addr, bytesAt x.sender.mem s.addr s.length⟩ : MemMove)) ∈ x.writes :=
    (List.mem_filter.1 (hw ▸ List.mem_singleton_self _)).1
  have hread := h.memory @hdis _ hmem
  rw [show (bytesAt x.sender.mem s.addr s.length).length = d.length from
    (length_bytesAt _ _ _).trans hlen.symm] at hread
  exact hread

/-- In every run of two contexts, whatever else they do: the tail of the sender's queue, the tail of the receiver's and
the head of the sender's are ordered; every index below the receiver's tail was written once, with the sender's
fragment; and where the buffers of the receiver do not overlap, its memory holds these fragments. -/
theorem transfer_in_order (l : Link) (x0 x : Transfer) (es : List Event) (h0 : start l = some x0)
    (hrun : Runs.Run (step l) (ok l) x0 es x) :
    ∃ q r, x.sender.packetManager.sendQueueAt l.atSender = some q ∧
      x.receiver.packetManager.receiveQueueAt l.atReceiver = some r ∧ q.tail ≤ r.tail ∧ r.tail ≤ q.ring.head ∧
      (∀ i < r.tail, ∃ mv, x.writes.filter (fun w => w.1 = i) = [(i, mv)] ∧
        Delivers (fragments l.fragmentSize x.sent) (fragments l.fragmentSize x.posted) x.sender.mem i mv) ∧
      (NoOverlap (fragments l.fragmentSize x.posted) → ∀ i < r.tail, ∀ src dst,
        (fragments l.fragmentSize x.sent)[i]? = some src → (fragments l.fragmentSize x.posted)[i]? = some dst →
        bytesAt x.receiver.mem dst.addr dst.length = bytesAt x.sender.mem src.addr src.length) := by
  obtain ⟨-, q, r, h⟩ := good_run (good_start h0) hrun
  refine ⟨q, r, h.sendQueue, h.receiveQueue, h.unicast.tail, h.unicast.receiver.tail_le,
    fun i hi => h.unicast.receiver.delivered hi, fun hdis i hi src dst hs hd => ?_⟩
  exact h.fragment_delivered @hdis hi hs hd

theorem sample_window_lt : kWndSize < 128 ∧ kWndSize + 1 < 128 := by decide

/-- Fragments of two bytes and queues of 128 slots, between two contexts that know each other as `a` and `b`. -/
def sampleLink : Link where
  sender := { smallConfig 512 with queueCapacity := 128, mem := fun a => UInt8.ofNat a }
  receiver := { smallConfig 512 with queueCapacity := 128 }
  atSender := 0
  atReceiver := 0
  lens := fun _ => 3
  mtuSize := rfl
  fragment_pos := Unicast.sample_fragment_pos
  sendCapacity := sample_window_lt.2
  recvCapacity := sample_window_lt.1
  recvCapacity_pow := ⟨7, Nat.le_of_ble_eq_true rfl, rfl⟩

def sampleConnect : List Event :=
  [.atSender (.setupConnection "b" 7 [1] [1] true), .atReceiver (.setupConnection "a" 9 [1] [1] true)]

/-- The two packets are sent one after the other, the first arrives twice, and both are acknowledged. -/
def sampleTraffic : List Event :=
  [.atSender (.sendData 1000000 [0] fun _ _ => ⟨0, 4⟩),
   .atReceiver (.arrive 0 (Exchange.arrivalOf 9 ⟨0, 0, 64, 0, 1000000, false, [100, 101]⟩)),
   .atReceiver (.arrive 0 (Exchange.arrivalOf 9 ⟨0, 0, 64, 0, 1000000, false, [100, 101]⟩)),
   .atReceiver (.sendAcks [(0, ⟨0, 1⟩)]),
   .atSender (.arrive 1000100 (Exchange.arrivalOf 7 ⟨0, 1, 8, 1, 1000000, false, []⟩)),
   .atSender (.sendData 3000000 [0] fun _ _ => ⟨0, 4⟩),
   .atReceiver (.arrive 0 (Exchange.arrivalOf 9 ⟨0, 0, 64, 1, 3000000, false, [102]⟩)),
   .atReceiver (.sent (0, ⟨some 0⟩)), .atReceiver (.sendAcks [(0, ⟨0, 1⟩)]),
   .atSender (.arrive 3000100 (Exchange.arrivalOf 7 ⟨0, 1, 8, 2, 3000000, false, []⟩))]

/-- Three bytes arrive, each fragment written once. -/
theorem transfer_in_order_sample : ∃ x0 x q r, start sampleLink = some x0 ∧
    Runs.Run (step sampleLink) (ok sampleLink) x0 (sampleConnect ++
      .atReceiver (.receive "a" [⟨200, 3⟩]) :: .atSender (.send "b" [⟨100, 3⟩]) :: sampleTraffic) x ∧
    bytesAt x.receiver.mem 200 3 = [100, 101, 102] ∧ x.sender.packetManager.sendQueueAt 0 = some q ∧
    x.receiver.packetManager.receiveQueueAt 0 = some r ∧ q.tail ≤ r.tail ∧ r.tail ≤ q.ring.head := by
  obtain ⟨x0, x, h0, hrun, ht⟩ := Runs.exists_run_of_start (step sampleLink) (ok sampleLink) (start sampleLink)
    (sampleConnect ++ .atReceiver (.receive "a" [⟨200, 3⟩]) :: .atSender (.send "b" [⟨100, 3⟩]) :: sampleTraffic)
    (fun x => decide (bytesAt x.receiver.mem 200 3 = [100, 101, 102])) (by decide +kernel)
  obtain ⟨q, r, hq, hr, h1, h2, -⟩ := transfer_in_order sampleLink x0 x _ h0 hrun
  exact ⟨x0, x, q, r, h0, hrun, of_decide_eq_true ht, hq, hr, h1, h2⟩

/-! ## What reports say -/

/-- The buffers whose fragments are below the tail of the receiver. -/
theorem Inv.buffer_delivered (h : Inv l x q r) (hdis : NoOverlap x.posted) {lens : List Nat}
    (hsent : x.sent.map (·.length) <+: lens) (hposted : x.posted.map (·.length) <+: lens) {k : Nat}
    (hk : k < lens.length) (hn : (fragmentLens l.fragmentSize (lens.take (k + 1))).length ≤ r.tail) :
    ∃ src dst, x.sent[k]? = some src ∧ x.posted[k]? = some dst ∧ dst.length = src.length ∧
      bytesAt x.receiver.mem dst.addr dst.length = bytesAt x.sender.mem src.addr src.length := by
  have htail : r.tail ≤ (fragments l.fragmentSize x.sent).length :=
    h.unicast.receiver.tail_le.trans h.unicast.sender.headLe
  have htail' : r.tail ≤ (fragments l.fragmentSize x.posted).length :=
    h.unicast.receiver.inv.tailLe.trans h.unicast.receiver.inv.headLe
  obtain ⟨src, hsrc, hlen⟩ := exists_buffer hsent hk (hn.trans htail)
  obtain ⟨dst, hdst, hlen'⟩ := exists_buffer hposted hk (hn.trans htail')
  refine ⟨src, dst, hsrc, hdst, hlen'.trans hlen.symm, ?_⟩
  rw [hlen, hlen']
  refine bytesAt_of_pieces (f := l.fragmentSize) l.fragment_pos fun i d s hd hs => ?_
  -- both pieces have the same place in their lists of fragments
  have hi : (fragmentLens l.fragmentSize (lens.take k)).length + i < r.tail := by
    have := (getElem?_pieces.1 hd).1
    rw [length_fragmentLens_take_succ _ hk] at hn
    omega
  rw [← hlen] at hs
  rw [← hlen'] at hd
  have hs := getElem?_fragments hsrc hs
  have hd := getElem?_fragments hdst hd
  rw [(List.prefix_iff_eq_take.1 hsent), List.take_take, min_eq_left] at hs
  rw [(List.prefix_iff_eq_take.1 hposted), List.take_take, min_eq_left] at hd
  · exact h.fragment_delivered (NoOverlap.fragments l.fragment_pos @hdis) hi hs hd
  · simpa using (List.getElem?_eq_some_iff.1 hdst).1.le
  · simpa using (List.getElem?_eq_some_iff.1 hsrc).1.le

/-- A `send` that is given a task: the task has the number its queue has counted to. -/
theorem task_of_send {c c' : Core} {sid : Nat} {p : String} {bufs : List Buffer} (hown : c.Entries (Own (·.sendQueue)))
    (hs : Context.step c (.send p bufs) = some c') (hf : c.controller.findSession p 0 = some sid)
    (hnew : c'.nextTaskId ≠ c.nextTaskId) :
    ∃ q, c'.packetManager.sendQueue sid = some q ∧
      c'.taskMap c.nextTaskId = some ⟨sid, shortSN q.ring.secondaryQueue.fragmentId, true, sid⟩ := by
  cases effect hs with
  | ignored => exact absurd rfl hnew
  | refused _ ho => exact absurd (openSession_tasks ho).1 hnew
  | sendPushed hf' ho hx hptr hq hpush h =>
    obtain rfl := Option.some.inj (hf'.symm.trans hf)
    obtain rfl := hown.opened entryRule_ownSend ho _ _ hx _ hptr
    obtain ⟨-, rfl⟩ | ⟨-, rfl⟩ := h
    · refine ⟨_, Function.update_self _ _ _, ?_⟩
      rw [← (openSession_tasks ho).1, SendQueue.push_lastSn hpush]
      exact Function.update_self _ _ _
    · exact absurd (openSession_tasks ho).1 hnew

theorem task_of_receive {c c' : Core} {sid : Nat} {p : String} {bufs : List Buffer}
    (hown : c.Entries (Own (·.receiveQueue))) (hs : Context.step c (.receive p bufs) = some c')
    (hf : c.controller.findSession p 0 = some sid) (hnew : c'.nextTaskId ≠ c.nextTaskId) :
    ∃ q, c'.packetManager.receiveQueue sid = some q ∧
      c'.taskMap c.nextTaskId = some ⟨sid, shortSN q.secondaryQueue.fragmentId, false, sid⟩ := by
  cases effect hs with
  | ignored => exact absurd rfl hnew
  | refused _ ho => exact absurd (openSession_tasks ho).1 hnew
  | receivePushed hf' ho hx hptr hq hpush h =>
    obtain rfl := Option.some.inj (hf'.symm.trans hf)
    obtain rfl := hown.opened Exchange.entryRule_ownReceive ho _ _ hx _ hptr
    obtain ⟨-, rfl⟩ | ⟨-, rfl⟩ := h
    · refine ⟨_, Function.update_self _ _ _, ?_⟩
      rw [← (openSession_tasks ho).1, ReceiveQueue.push_lastSn hpush]
      exact Function.update_self _ _ _
    · exact absurd (openSession_tasks ho).1 hnew

/-- A run appends buffers on both sides. -/
structure Extends (x x' : Transfer) : Prop where
  sent : x.sent <+: x'.sent
  posted : x.posted <+: x'.posted

theorem extends_run {es : List Event} (hrun : Runs.Run (step l) (ok l) x es x') : Extends x x' := by
  refine hrun.invariant (P := Extends x) ⟨List.prefix_rfl, List.prefix_rfl⟩ ?_
  intro y ev y' hy hok hs
  cases ev with
  | atSender e =>
    obtain ⟨c, hc, rfl⟩ := Option.map_eq_some_iff.1 hs
    exact ⟨hy.sent.trans (List.prefix_append _ _), hy.posted⟩
  | atReceiver e =>
    obtain ⟨c, hc, rfl⟩ := Option.map_eq_some_iff.1 hs
    exact ⟨hy.sent, hy.posted.trans (List.prefix_append _ _)⟩

/-- Buffers that are all counted, and whose numbers do not wrap. -/
structure Countable (f : Nat) (bufs : List Buffer) : Prop where
  counted : ∀ b ∈ bufs, SecondaryQueue.Counted f b
  short : (fragments f bufs).length < 2 ^ 24

namespace Countable

variable {f : Nat} {bufs more : List Buffer}

theorem initial (h : Countable f more) (hb : bufs <+: more) : Countable f bufs := by
  obtain ⟨rest, rfl⟩ := hb
  refine ⟨fun b hmem => h.counted b (List.mem_append_left _ hmem), lt_of_le_of_lt ?_ h.short⟩
  rw [fragments_append, List.length_append]
  exact Nat.le_add_right _ _

/-- The division counts the fragments of the buffers. -/
theorem count (h : Countable f bufs) (hf : 0 < f) (hf64 : f < 2 ^ 64) :
    (bufs.map (SecondaryQueue.countOf f)).sum % 2 ^ 64 = (fragments f bufs).length := by
  have hlt := h.short
  rw [← (SecondaryQueue.sum_countOf_eq_iff hf hf64 bufs).2 h.counted]
  omega

end Countable

/-- Everything that was pushed up to some point is below the receiver's tail: it is in the receiver's memory. -/
theorem Inv.delivered_of_le (h : Inv l x q r) (hdis : NoOverlap x.posted) {bufs : List Buffer}
    (hbufs : bufs <+: x.sent ∨ bufs <+: x.posted) (hle : (fragments l.fragmentSize bufs).length ≤ r.tail) {k : Nat}
    (hk : k < bufs.length) :
    ∃ src dst, x.sent[k]? = some src ∧ x.posted[k]? = some dst ∧ dst.length = src.length ∧
      bytesAt x.receiver.mem dst.addr dst.length = bytesAt x.sender.mem src.addr src.length := by
  obtain ⟨lens, hsent, hposted⟩ := h.unicast.sentLens.common h.unicast.postedLens
  have hb : bufs.map (·.length) <+: lens := by
    rcases hbufs with hbufs | hbufs
    · exact (hbufs.map _).trans hsent
    · exact (hbufs.map _).trans hposted
  have hlens : k < lens.length := lt_of_lt_of_le hk (by simpa using hb.length_le)
  refine h.buffer_delivered @hdis hsent hposted hlens (le_trans ?_ hle)
  rw [length_fragments, List.prefix_iff_eq_take.1 hb, List.length_map]
  have hpre := List.take_prefix_take_left (l := lens) (Nat.succ_le_of_lt hk)
  obtain ⟨rest, hrest⟩ := hpre
  rw [← hrest, fragmentLens, fragmentLens, List.flatMap_append, List.length_append]
  exact Nat.le_add_right _ _

/-- A reported send: the tail of the sender's queue has passed the number of the task. -/
theorem Inv.sendStatus (h : Inv l x q r) (hl : Countable l.fragmentSize x.sent) {id n s : Nat} (hn : n < 2 ^ 24)
    (ht : x.sender.taskMap id = some ⟨s, shortSN n, true, l.atSender⟩)
    (hst : getStatus x.sender id = some .success) : n ≤ q.tail := by
  unfold getStatus at hst
  rw [ht] at hst
  obtain ⟨q0, hq0, hst⟩ := Option.map_eq_some_iff.1 hst
  obtain rfl := Option.some.inj ((PacketManager.sendQueueAt_of_some hq0).symm.trans h.sendQueue)
  have hhead := lt_of_le_of_lt h.unicast.sender.headLe hl.short
  rw [shortSN_of_lt hn] at hst
  exact (statusOf_shortSN_iff h.unicast.sender.tailLe hhead).1 hst

theorem Inv.receiveStatus (h : Inv l x q r) (hl : Countable l.fragmentSize x.posted) {id n s : Nat} (hn : n < 2 ^ 24)
    (ht : x.receiver.taskMap id = some ⟨s, shortSN n, false, l.atReceiver⟩)
    (hst : getStatus x.receiver id = some .success) : n ≤ r.tail := by
  unfold getStatus at hst
  rw [ht] at hst
  obtain ⟨r0, hr0, hst⟩ := Option.map_eq_some_iff.1 hst
  obtain rfl := Option.some.inj ((PacketManager.receiveQueueAt_of_some hr0).symm.trans h.receiveQueue)
  have hhead := lt_of_le_of_lt h.unicast.receiver.inv.headLe hl.short
  rw [shortSN_of_lt hn] at hst
  exact (statusOf_shortSN_iff h.unicast.receiver.inv.tailLe hhead).1 hst

/-- A `send` of the session that is reported done, in any later state of any run in which its id still denotes its task:
the receiver's memory holds every buffer that was sent up to and including this call, in the buffers it was given for
them. -/
theorem reported_send_delivered (l : Link) (x0 x1 x2 x : Transfer) (es es' : List Event) (p : String)
    (bufs : List Buffer) (h0 : start l = some x0) (h1 : Runs.Run (step l) (ok l) x0 es x1)
    (hok : ok l x1 (.atSender (.send p bufs))) (hs : step l x1 (.atSender (.send p bufs)) = some x2)
    (hp : x1.sender.controller.findSession p 0 = some l.atSender) (hnew : x2.sender.nextTaskId ≠ x1.sender.nextTaskId)
    (h2 : Runs.Run (step l) (ok l) x2 es' x)
    (hkept : x.sender.taskMap x1.sender.nextTaskId = x2.sender.taskMap x1.sender.nextTaskId)
    (hst : getStatus x.sender x1.sender.nextTaskId = some .success) (hl : Countable l.fragmentSize x.sent)
    (hdis : NoOverlap x.posted) :
    x2.sent = x1.sent ++ bufs ∧ ∀ (k : Nat) (src : Buffer), x2.sent[k]? = some src →
      ∃ dst : Buffer, x.posted[k]? = some dst ∧ dst.length = src.length ∧
        bytesAt x.receiver.mem dst.addr dst.length = bytesAt x.sender.mem src.addr src.length := by
  have hg1 := good_run (good_start h0) h1
  have hg2 := hg1.step hok hs
  obtain ⟨-, q, r, h⟩ := good_run hg2 h2
  obtain ⟨-, q2, r2, hinv2⟩ := hg2
  have hext := extends_run h2
  obtain ⟨c, hc, rfl⟩ := Option.map_eq_some_iff.1 hs
  obtain ⟨q0, hq0, htask⟩ := task_of_send hg1.1.ownSend hc hp hnew
  obtain rfl := Option.some.inj ((PacketManager.sendQueueAt_of_some hq0).symm.trans hinv2.sendQueue)
  -- the number of the task counts the fragments of all that was sent until then
  have hl2 := hl.initial hext.sent
  rw [hinv2.numbered.trans (hl2.count l.fragment_pos l.fragmentSize_lt)] at htask
  have hle := (h.sendStatus hl hl2.short (hkept.trans htask) hst).trans h.unicast.tail
  refine ⟨congrArg (x1.sent ++ ·) (if_pos ⟨hp, hnew⟩), fun k src hsrc => ?_⟩
  obtain ⟨hk, rfl⟩ := List.getElem?_eq_some_iff.1 hsrc
  obtain ⟨src', dst, hsrc', hdst, hlen, hbytes⟩ := h.delivered_of_le @hdis (.inl hext.sent) hle hk
  obtain rfl := Option.some.inj ((List.prefix_iff_getElem?.1 hext.sent k hk).symm.trans hsrc')
  exact ⟨dst, hdst, hlen, hbytes⟩

theorem countable_three (addr : Nat) : Countable sampleLink.fragmentSize [⟨addr, 3⟩] := by
  have hcount : (fragments sampleLink.fragmentSize [⟨addr, 3⟩]).length = 2 := by simp [fragments]; decide
  refine ⟨fun b hb => ?_, by omega⟩
  rw [List.mem_singleton.1 hb]
  exact ⟨Nat.succ_pos 2, show 3 + sampleLink.fragmentSize - 1 < 2 ^ 64 by decide⟩

theorem noOverlap_singleton (b : Buffer) : NoOverlap [b] := by
  intro i j x y hij hx hy
  have hi := (List.getElem?_eq_some_iff.1 hx).1
  have hj := (List.getElem?_eq_some_iff.1 hy).1
  rw [List.length_singleton] at hi hj
  omega

/-- The send of three bytes is reported, and they are at the receiver. -/
theorem reported_send_delivered_sample : ∃ x0 x1 x2 x, start sampleLink = some x0 ∧
    Runs.Run (step sampleLink) (ok sampleLink) x0 (sampleConnect ++ [.atReceiver (.receive "a" [⟨200, 3⟩])]) x1 ∧
    step sampleLink x1 (.atSender (.send "b" [⟨100, 3⟩])) = some x2 ∧
    Runs.Run (step sampleLink) (ok sampleLink) x2 sampleTraffic x ∧ getStatus x.sender 0 = some .success ∧
    ∃ dst : Buffer, x.posted[0]? = some dst ∧ dst.length = 3 ∧
      bytesAt x.receiver.mem dst.addr dst.length = bytesAt x.sender.mem 100 3 := by
  obtain ⟨x0, x1, h0, h1, ht⟩ := Runs.exists_run_of_start (step sampleLink) (ok sampleLink) (start sampleLink)
    (sampleConnect ++ [.atReceiver (.receive "a" [⟨200, 3⟩])])
    (fun x1 : Transfer => decide (x1.sender.nextTaskId = 0 ∧ x1.sent = [] ∧
        x1.sender.controller.findSession "b" 0 = some 0 ∧ ok sampleLink x1 (.atSender (.send "b" [⟨100, 3⟩]))) &&
      (step sampleLink x1 (.atSender (.send "b" [⟨100, 3⟩]))).any fun x2 : Transfer =>
        decide (x2.sender.nextTaskId = 1) &&
        (Runs.exec (step sampleLink) (ok sampleLink) x2 sampleTraffic).any fun x : Transfer =>
          decide (getStatus x.sender 0 = some .success ∧ x.sender.taskMap 0 = x2.sender.taskMap 0 ∧
            x.sent = [⟨100, 3⟩] ∧ x.posted = [⟨200, 3⟩])) (by decide +kernel)
  obtain ⟨ht, hx⟩ := Bool.and_eq_true_iff.1 ht
  obtain ⟨hid, hsent, hp, hok⟩ := of_decide_eq_true ht
  obtain ⟨x2, hs, hx⟩ := (Option.any_eq_true _ _).1 hx
  obtain ⟨hnew, hx⟩ := Bool.and_eq_true_iff.1 hx
  have hnew : x2.sender.nextTaskId = 1 := of_decide_eq_true hnew
  obtain ⟨x, hexec, hx⟩ := (Option.any_eq_true _ _).1 hx
  obtain ⟨hst, hkept, hsent', hposted⟩ := of_decide_eq_true hx
  have hdis : NoOverlap x.posted := hposted ▸ noOverlap_singleton _
  obtain ⟨hx2, h⟩ := reported_send_delivered sampleLink x0 x1 x2 x _ _ "b" [⟨100, 3⟩] h0 h1 hok hs hp (by omega)
    (Runs.run_of_exec hexec) (by rw [hid]; exact hkept) (by rw [hid]; exact hst) (hsent' ▸ countable_three 100) @hdis
  refine ⟨x0, x1, x2, x, h0, h1, hs, Runs.run_of_exec hexec, hst, h 0 ⟨100, 3⟩ ?_⟩
  rw [hx2, hsent]
  rfl

/-- The same for a `receive` that the receiver reports. -/
theorem reported_receive_delivered (l : Link) (x0 x1 x2 x : Transfer) (es es' : List Event) (p : String)
    (bufs : List Buffer) (h0 : start l = some x0) (h1 : Runs.Run (step l) (ok l) x0 es x1)
    (hok : ok l x1 (.atReceiver (.receive p bufs))) (hs : step l x1 (.atReceiver (.receive p bufs)) = some x2)
    (hp : x1.receiver.controller.findSession p 0 = some l.atReceiver)
    (hnew : x2.receiver.nextTaskId ≠ x1.receiver.nextTaskId) (h2 : Runs.Run (step l) (ok l) x2 es' x)
    (hkept : x.receiver.taskMap x1.receiver.nextTaskId = x2.receiver.taskMap x1.receiver.nextTaskId)
    (hst : getStatus x.receiver x1.receiver.nextTaskId = some .success) (hl : Countable l.fragmentSize x.posted)
    (hdis : NoOverlap x.posted) :
    x2.posted = x1.posted ++ bufs ∧ ∀ (k : Nat) (dst : Buffer), x2.posted[k]? = some dst →
      ∃ src : Buffer, x.sent[k]? = some src ∧ src.length = dst.length ∧
        bytesAt x.receiver.mem dst.addr dst.length = bytesAt x.sender.mem src.addr src.length := by
  have hg1 := good_run (good_start h0) h1
  have hg2 := hg1.step hok hs
  obtain ⟨-, q, r, h⟩ := good_run hg2 h2
  obtain ⟨-, q2, r2, hinv2⟩ := hg2
  have hext := extends_run h2
  obtain ⟨c, hc, rfl⟩ := Option.map_eq_some_iff.1 hs
  obtain ⟨r0, hr0, htask⟩ := task_of_receive hg1.1.ownReceive hc hp hnew
  obtain rfl := Option.some.inj ((PacketManager.receiveQueueAt_of_some hr0).symm.trans hinv2.receiveQueue)
  have hl2 := hl.initial hext.posted
  rw [hinv2.requested.numbered.trans (hl2.count l.fragment_pos l.fragmentSize_lt)] at htask
  have hle := h.receiveStatus hl hl2.short (hkept.trans htask) hst
  refine ⟨congrArg (x1.posted ++ ·) (if_pos ⟨hp, hnew⟩), fun k dst hdst => ?_⟩
  obtain ⟨hk, rfl⟩ := List.getElem?_eq_some_iff.1 hdst
  obtain ⟨src, dst', hsrc, hdst', hlen, hbytes⟩ := h.delivered_of_le @hdis (.inr hext.posted) hle hk
  obtain rfl := Option.some.inj ((List.prefix_iff_getElem?.1 hext.posted k hk).symm.trans hdst')
  exact ⟨src, hsrc, hlen.symm, hbytes⟩

/-- The receive of three bytes is reported, and they are those of the sender. -/
theorem reported_receive_delivered_sample : ∃ x0 x1 x2 x, start sampleLink = some x0 ∧
    Runs.Run (step sampleLink) (ok sampleLink) x0 sampleConnect x1 ∧
    step sampleLink x1 (.atReceiver (.receive "a" [⟨200, 3⟩])) = some x2 ∧
    Runs.Run (step sampleLink) (ok sampleLink) x2 (.atSender (.send "b" [⟨100, 3⟩]) :: sampleTraffic) x ∧
    getStatus x.receiver 0 = some .success ∧
    ∃ src : Buffer, x.sent[0]? = some src ∧ src.length = 3 ∧
      bytesAt x.receiver.mem 200 3 = bytesAt x.sender.mem src.addr src.length := by
  obtain ⟨x0, x1, h0, h1, ht⟩ :=
    Runs.exists_run_of_start (step sampleLink) (ok sampleLink) (start sampleLink) sampleConnect
    (fun x1 : Transfer => decide (x1.receiver.nextTaskId = 0 ∧ x1.posted = [] ∧
        x1.receiver.controller.findSession "a" 0 = some 0 ∧ ok sampleLink x1 (.atReceiver (.receive "a" [⟨200, 3⟩]))) &&
      (step sampleLink x1 (.atReceiver (.receive "a" [⟨200, 3⟩]))).any fun x2 : Transfer =>
        decide (x2.receiver.nextTaskId = 1) && (Runs.exec (step sampleLink) (ok sampleLink) x2
          (.atSender (.send "b" [⟨100, 3⟩]) :: sampleTraffic)).any fun x : Transfer =>
            decide (getStatus x.receiver 0 = some .success ∧ x.receiver.taskMap 0 = x2.receiver.taskMap 0 ∧
              x.posted = [⟨200, 3⟩])) (by decide +kernel)
  obtain ⟨ht, hx⟩ := Bool.and_eq_true_iff.1 ht
  obtain ⟨hid, hposted1, hp, hok⟩ := of_decide_eq_true ht
  obtain ⟨x2, hs, hx⟩ := (Option.any_eq_true _ _).1 hx
  obtain ⟨hnew, hx⟩ := Bool.and_eq_true_iff.1 hx
  have hnew : x2.receiver.nextTaskId = 1 := of_decide_eq_true hnew
  obtain ⟨x, hexec, hx⟩ := (Option.any_eq_true _ _).1 hx
  obtain ⟨hst, hkept, hposted⟩ := of_decide_eq_true hx
  have hdis : NoOverlap x.posted := hposted ▸ noOverlap_singleton _
  obtain ⟨hx2, h⟩ := reported_receive_delivered sampleLink x0 x1 x2 x _ _ "a" [⟨200, 3⟩] h0 h1 hok hs hp (by omega)
    (Runs.run_of_exec hexec) (by rw [hid]; exact hkept) (by rw [hid]; exact hst) (hposted ▸ countable_three 200) @hdis
  refine ⟨x0, x1, x2, x, h0, h1, hs, Runs.run_of_exec hexec, hst, h 0 ⟨200, 3⟩ ?_⟩
  rw [hx2, hposted1]
  rfl

end Transfer

end RapidTransfer
